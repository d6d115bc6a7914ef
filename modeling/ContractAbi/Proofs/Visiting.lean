import ContractAbi.Declaration.Enroll
import ContractAbi.Proofs.Running

/-!
# Surveys of fresh code

No two methods of fresh code share a key. A survey of it puts every annotated method on record once
and enters every event once, both in the order of the visits, and knows a class name by the last
class that has it.
-/

namespace ContractAbi

/-! ### Contracts -/

/-- Whether some decorator puts the method on record. -/
def Method.isAnnotated (m : Method) : Bool :=
  m.decorators.any Decorator.isRecording

/-- A class outside the standard library, and where it stands. -/
structure Contract where
  site : Site
  path : Json
  declaration : Class
deriving DecidableEq, Repr

namespace Contract

def name (v : Contract) : Name :=
  v.declaration.name

/-- The methods, each with the name of the class. -/
def methods (v : Contract) : List (Name × Method) :=
  v.declaration.methods.map (v.name, ·)

/-- The methods that are put on record. -/
def annotated (v : Contract) : List (Name × Method) :=
  v.methods.filter (·.2.isAnnotated)

theorem annotated_eq (v : Contract) :
    v.annotated = (v.declaration.methods.filter Method.isAnnotated).map (v.name, ·) := by
  unfold annotated methods
  rw [List.filter_map]
  rfl

theorem owner_of_mem_annotated {v : Contract} {p : Name × Method} (member : p ∈ v.annotated) :
    p.1 = v.name := by
  obtain ⟨m, -, rfl⟩ := List.mem_map.mp (v.annotated_eq ▸ member)
  rfl

end Contract

def Source.contracts (number : Nat) (s : Source) : List Contract :=
  match s.isStandard with
  | .ok true => []
  | _ => s.classes.zipIdx.map fun (c, index) => ⟨⟨number, index⟩, s.path, c⟩

theorem Source.contracts_eq (number : Nat) (s : Source) :
    s.contracts number = if s.isPassedOver then [] else
      s.classes.zipIdx.map fun p => ⟨⟨number, p.2⟩, s.path, p.1⟩ := by
  unfold contracts isPassedOver
  cases s.isStandard with
  | error fault => rfl
  | ok standard => cases standard <;> rfl

namespace Codebase

/-- The classes outside the standard library in the order in which they are visited. -/
def contracts (code : Codebase) : List Contract :=
  code.sources.zipIdx.flatMap fun (s, number) => s.contracts number

/-- The annotated methods of all contracts in the order of the visits. -/
def annotated (code : Codebase) : List (Name × Method) :=
  code.contracts.flatMap Contract.annotated

end Codebase

namespace Survey

/-- Visits contracts up to one that is at fault. -/
def visitAll (s : Survey) : List Contract → Survey × Except Fault Unit
  | [] => (s, .ok ())
  | v :: vs => andThen (·.visitAll vs) (s.visitClass v.site v.declaration v.path)

theorem visitAll_append (s : Survey) (us vs : List Contract) :
    s.visitAll (us ++ vs) = andThen (·.visitAll vs) (s.visitAll us) := by
  induction us generalizing s with
  | nil => rfl
  | cons u us ih =>
    rw [List.cons_append, visitAll, visitAll]
    rcases s.visitClass u.site u.declaration u.path with ⟨next, outcome⟩
    cases outcome with
    | error fault => rfl
    | ok _ => exact ih next

theorem visitClasses_eq (number : Nat) (path : Json) (s : Survey) (index : Nat) (cs : List Class) :
    visitClasses number path s index cs =
      s.visitAll ((cs.zipIdx index).map fun (c, index) => ⟨⟨number, index⟩, path, c⟩) := by
  induction cs generalizing s index with
  | nil => rfl
  | cons c cs ih =>
    rw [visitClasses_cons, List.zipIdx_cons, List.map_cons, visitAll]
    simp only [ih]

theorem visitSource_ok {s s' : Survey} {number : Nat} {source : Source}
    (h : s.visitSource number source = (s', .ok ())) :
    s.visitAll (source.contracts number) = (s', .ok ()) := by
  unfold visitSource at h
  unfold Source.contracts
  split at h
  · cases (Prod.mk.inj h).2
  · rename_i library
    rw [library]
    exact h
  · rename_i own
    rw [own]
    exact (visitClasses_eq ..).symm.trans h

/-- Visiting sources comes down to visiting their contracts. -/
theorem visitSources_ok {s s' : Survey} {number : Nat} {sources : List Source}
    (h : s.visitSources number sources = (s', .ok ())) :
    s.visitAll ((sources.zipIdx number).flatMap fun (s, number) => s.contracts number) =
      (s', .ok ()) := by
  induction sources generalizing s number with
  | nil => exact h
  | cons source rest ih =>
    rw [visitSources_cons] at h
    obtain ⟨next, visited, h⟩ := andThen_ok h
    rw [List.zipIdx_cons, List.flatMap_cons, visitAll_append, visitSource_ok visited]
    exact ih h

/-- What holds at the start and is kept by one more visit holds of all of them. -/
theorem visitAll_induction {P : List Contract → Survey → Prop} {s s' : Survey} {vs : List Contract}
    (start : P [] s)
    (step : ∀ us v s s', P us s → s.visitClass v.site v.declaration v.path = (s', .ok ()) →
      P (us ++ [v]) s')
    (h : s.visitAll vs = (s', .ok ())) : P vs s' := by
  have general (us vs : List Contract) (s : Survey) (before : P us s)
      (h : s.visitAll vs = (s', .ok ())) : P (us ++ vs) s' := by
    induction vs generalizing us s with
    | nil =>
      cases h
      rwa [List.append_nil]
    | cons v vs ih =>
      obtain ⟨next, visited, h⟩ := andThen_ok h
      rw [List.append_cons]
      exact ih (us ++ [v]) next (step us v s next before visited) h
  exact general [] vs s start h

end Survey

/-! ### Records -/

theorem Annotations.isRecorded_add (declared : Name) (a : Annotations) (d : Decorator) :
    (a.add declared d).isRecorded = (a.isRecorded || d.isRecording) := by
  unfold add Decorator.isRecording
  split_ifs <;> simp_all [isRecorded]

theorem Annotations.isRecorded_addAll (declared : Name) (a : Annotations) (ds : List Decorator) :
    (addAll declared a ds).isRecorded = (a.isRecorded || ds.any Decorator.isRecording) := by
  induction ds generalizing a with
  | nil => simp [addAll]
  | cons d ds ih =>
    rw [List.any_cons, ← Bool.or_assoc, ← isRecorded_add declared]
    exact ih _

theorem Annotations.isRecorded_ofMethod (m : Method) :
    (ofMethod m).isRecorded = m.isAnnotated :=
  isRecorded_addAll m.name {} m.decorators

/-- The record of a method, as its own annotations have it. -/
def Record.ofMethod (owner : Name) (m : Method) (handle : Nat) : Record :=
  (Record.blank m handle owner).merge (Annotations.ofMethod m)

namespace Survey

/-- Nothing is held back, and every record has a handle of this arena. -/
structure IsSteady (s : Survey) : Prop where
  nothingHeld : s.catalog.held.entries = []
  handles : ∀ r ∈ s.catalog.records, r.handle < s.registry.arena.length

/-- Visiting these methods leads from one survey to the other. All of them get handles, which no other
method loses or gains, and those that are annotated are put on record as their own annotations say. -/
structure Adds (ms : List (Name × Method)) (s s' : Survey) : Prop where
  nothingHeld : s'.catalog.held.entries = []
  arena : s'.registry.arena = s.registry.arena ++ ms.map fun (owner, m) => ⟨m.key, m.name, owner⟩
  keeps : ∀ key handle, s.registry.HasHandle key handle → s'.registry.HasHandle key handle
  others : ∀ key, key ∉ ms.map (·.2.key) →
    s'.registry.handles.get? key = s.registry.handles.get? key
  registered : ∀ p ∈ ms, ∃ handle, s'.registry.HasHandle p.2.key handle
  records : ∃ new, s'.catalog.records = s.catalog.records ++ new ∧
    (∀ r ∈ new, r.handle < s'.registry.arena.length) ∧
    List.Forall₂ (fun p r => r = .ofMethod p.1 p.2 r.handle ∧
      s'.registry.HasHandle p.2.key r.handle) (ms.filter (·.2.isAnnotated)) new

theorem Adds.steady {ms : List (Name × Method)} {s s' : Survey} (adds : Adds ms s s')
    (steady : s.IsSteady) : s'.IsSteady := by
  obtain ⟨new, records, below, -⟩ := adds.records
  refine ⟨adds.nothingHeld, fun r member => ?_⟩
  rw [records] at member
  rcases List.mem_append.mp member with old | added
  · have before := steady.handles r old
    rw [adds.arena, List.length_append]
    omega
  · exact below r added

theorem Adds.trans {ms ms' : List (Name × Method)} {s s' s'' : Survey} (first : Adds ms s s')
    (second : Adds ms' s' s'') : Adds (ms ++ ms') s s'' := by
  obtain ⟨new, records, below, each⟩ := first.records
  obtain ⟨new', records', below', each'⟩ := second.records
  refine ⟨second.nothingHeld, ?_, ?_, ?_, ?_, new ++ new', ?_, ?_, ?_⟩
  · rw [second.arena, first.arena, List.append_assoc, List.map_append]
  · intro key handle has
    exact second.keeps key handle (first.keeps key handle has)
  · intro key other
    rw [List.map_append, List.mem_append, not_or] at other
    rw [second.others key other.2, first.others key other.1]
  · intro p member
    rcases List.mem_append.mp member with old | added
    · obtain ⟨handle, has⟩ := first.registered p old
      exact ⟨handle, second.keeps _ handle has⟩
    · exact second.registered p added
  · rw [records', records, List.append_assoc]
  · intro r member
    rcases List.mem_append.mp member with old | added
    · have before := below r old
      rw [second.arena, List.length_append]
      omega
    · exact below' r added
  · rw [List.filter_append]
    refine List.rel_append (each.imp fun p r own => ?_) each'
    exact ⟨own.1, second.keeps _ _ own.2⟩

/-- A method that the arena does not have yet is put on record if it is annotated. -/
theorem visitMethod_adds {s s' : Survey} {m : Method} {owner : Name} (steady : s.IsSteady)
    (new : m.key ∉ s.registry.arena.map (·.key)) (h : s.visitMethod m owner = (s', .ok ())) :
    Adds [(owner, m)] s s' := by
  obtain ⟨registry, catalog⟩ := visitMethod_ok steady.nothingHeld h
  have missing : s.registry.handleOf? m = none := by
    unfold Registry.handleOf?
    rw [Option.filter_eq_none_iff]
    intro handle _ held
    cases found : s.registry.arena[handle]? with
    | none => simp [found] at held
    | some entry =>
      have same : entry.key = m.key := by simpa [found] using held
      exact new (List.mem_map.mpr ⟨entry, List.mem_of_getElem? found, same⟩)
  have added : s.registry.add m owner = (s.registry.arena.length,
      { handles := s.registry.handles.insert m.key s.registry.arena.length
        arena := s.registry.arena ++ [⟨m.key, m.name, owner⟩] }) := by
    unfold Registry.add
    rw [missing]
  have unrecorded : s.catalog.isRecorded s.registry.arena.length = false := by
    unfold Catalog.isRecorded
    rw [List.any_eq_false]
    intro r member
    have below := steady.handles r member
    simp only [decide_eq_true_eq]
    omega
  have has := s.registry.add_hasHandle m owner
  have keeps (key handle : Nat) (has : s.registry.HasHandle key handle) :
      s'.registry.HasHandle key handle := registry ▸ Registry.hasHandle_add has m owner
  rw [← registry, added] at has
  rw [added] at registry catalog
  have arena : s'.registry.arena = s.registry.arena ++ [⟨m.key, m.name, owner⟩] := by rw [registry]
  refine ⟨by rw [catalog], arena, keeps, ?_, ?_, ?_⟩
  · intro key other
    rw [registry]
    exact Table.get?_insert_of_ne _ _ (by simpa using other)
  · intro p member
    rw [List.mem_singleton.mp member]
    exact ⟨_, has⟩
  rw [catalog, Catalog.enter, unrecorded, Annotations.isRecorded_ofMethod, arena]
  cases annotated : m.isAnnotated with
  | false =>
    refine ⟨[], (List.append_nil _).symm, nofun, ?_⟩
    simp [annotated]
  | true =>
    refine ⟨[Record.ofMethod owner m s.registry.arena.length], rfl, ?_, ?_⟩
    · intro r member
      rw [List.mem_singleton.mp member, List.length_append]
      exact Nat.lt_succ_self _
    · rw [List.filter_singleton]
      simpa [annotated] using ⟨rfl, has⟩

theorem Adds.refl {s : Survey} (steady : s.IsSteady) : Adds [] s s :=
  ⟨steady.nothingHeld, (List.append_nil _).symm, fun _ _ has => has, fun _ _ => rfl, nofun, [],
    (List.append_nil _).symm, nofun, .nil⟩

theorem visitMethods_adds {s s' : Survey} {owner : Name} {ms : List Method}
    (h : s.visitMethods owner ms = (s', .ok ())) (steady : s.IsSteady)
    (distinct : (s.registry.arena.map (·.key) ++ ms.map (·.key)).Nodup) :
    Adds (ms.map (owner, ·)) s s' := by
  induction ms generalizing s with
  | nil =>
    cases h
    exact Adds.refl steady
  | cons m ms ih =>
    rw [visitMethods_cons] at h
    obtain ⟨next, visited, h⟩ := andThen_ok h
    have new : m.key ∉ s.registry.arena.map (·.key) := fun known =>
      (List.nodup_append.mp distinct).2.2 _ known _ List.mem_cons_self rfl
    have first := visitMethod_adds steady new visited
    have others := ih h (first.steady steady) (by simpa [first.arena] using distinct)
    exact first.trans others

theorem visitClass_adds {s s' : Survey} {v : Contract} (steady : s.IsSteady)
    (distinct : (s.registry.arena.map (·.key) ++ v.methods.map (·.2.key)).Nodup)
    (h : s.visitClass v.site v.declaration v.path = (s', .ok ())) : Adds v.methods s s' := by
  obtain ⟨event, -, methods⟩ := visitClass_ok h
  have keys : v.methods.map (·.2.key) = v.declaration.methods.map (·.key) := by
    simp [Contract.methods]
  rw [keys] at distinct
  have adds := visitMethods_adds methods ⟨steady.nothingHeld, steady.handles⟩ distinct
  exact ⟨adds.nothingHeld, adds.arena, adds.keeps, adds.others, adds.registered, adds.records⟩

/-! ### Classes and events -/

/-- What a survey knows once it has visited these contracts. Of contracts that share a name, it
knows where the last one is. -/
structure Sees (vs : List Contract) (s : Survey) : Prop where
  nothingHeld : s.catalog.held.entries = []
  names : ∀ v ∈ vs, v.name.isComposite = false
  events : List.Forall₂ (fun v e => v.declaration.event? v.path = .ok (some e))
    (vs.filter (·.declaration.eventName?.isSome)) s.catalog.events
  sites : ∀ key, (s.catalog.classes.get? key).map (·.site) =
    (vs.filter (·.name.key = key)).getLast?.map (·.site)

theorem sees_start (registry : Registry) : Sees [] { registry } :=
  ⟨rfl, nofun, .nil, fun _ => rfl⟩

theorem visitMethods_frame {s s' : Survey} {owner : Name} {ms : List Method}
    (h : s.visitMethods owner ms = (s', .ok ())) (nothingHeld : s.catalog.held.entries = []) :
    s'.catalog.held.entries = [] ∧ s'.catalog.classes = s.catalog.classes ∧
      s'.catalog.events = s.catalog.events := by
  let kept (next : Survey) : Prop := next.catalog.held.entries = [] ∧
    next.catalog.classes = s.catalog.classes ∧ next.catalog.events = s.catalog.events
  refine visitMethods_keeps (P := kept) ?_ ⟨nothingHeld, rfl, rfl⟩ h
  rintro m - before after ⟨held, classes, events⟩ visited
  obtain ⟨-, catalog⟩ := visitMethod_ok held visited
  refine ⟨by rw [catalog], ?_, ?_⟩
  · rw [catalog, ← classes]
    exact Catalog.enter_classes ..
  · rw [catalog, ← events]
    exact Catalog.enter_events ..

theorem visitClass_sees {us : List Contract} {s s' : Survey} {v : Contract} (sees : s.Sees us)
    (h : s.visitClass v.site v.declaration v.path = (s', .ok ())) : s'.Sees (us ++ [v]) := by
  have plain : v.name.isComposite = false := by
    unfold visitClass at h
    split at h
    · cases (Prod.mk.inj h).2
    · rename_i plain
      exact Bool.eq_false_iff.mpr plain
  obtain ⟨event, declared, methods⟩ := visitClass_ok h
  obtain ⟨held, classes, events⟩ := visitMethods_frame methods sees.nothingHeld
  refine ⟨held, ?_, ?_, ?_⟩
  · intro u member
    rcases List.mem_append.mp member with old | new
    · exact sees.names u old
    · exact List.mem_singleton.mp new ▸ plain
  · rw [events, List.filter_append]
    refine List.rel_append sees.events ?_
    have named : v.declaration.eventName?.isSome = event.isSome := by
      unfold Class.event? at declared
      split at declared
      · rename_i unnamed
        cases declared
        rw [unnamed]
        rfl
      · rename_i name named
        obtain ⟨fields, -, made⟩ := bind_ok declared
        cases made
        rw [named]
        rfl
    rw [List.filter_singleton, named]
    cases event with
    | none => exact .nil
    | some e => exact .cons declared .nil
  · intro key
    rw [classes, List.filter_append, List.filter_singleton]
    unfold Catalog.meet
    by_cases same : v.name.key = key
    · subst same
      simp [Contract.name]
    · have other : key ≠ v.declaration.name.key := fun equal => same equal.symm
      simp only [same, decide_false, cond_false, List.append_nil]
      rw [Table.get?_insert_of_ne _ _ other]
      exact sees.sites key

end Survey

/-! ### Fresh code -/

namespace Codebase

/-- No two methods share a key. -/
def IsFresh (code : Codebase) : Prop :=
  (code.methods.map (·.key)).Nodup

def visited (code : Codebase) : List Element :=
  code.elements.filter (!·.isLibrary)

theorem map_visited (code : Codebase) :
    code.visited.map (fun e => (e.owner, e.method)) = code.contracts.flatMap Contract.methods := by
  have classes (number index : Nat) (path : Json) (cs : List Class) :
      (((cs.zipIdx index).map fun p => (⟨⟨number, p.2⟩, path, p.1⟩ : Contract)).flatMap
        Contract.methods) = cs.flatMap fun c => c.methods.map (c.name, ·) := by
    induction cs generalizing index with
    | nil => rfl
    | cons c cs ih =>
      rw [List.zipIdx_cons, List.map_cons, List.flatMap_cons, ih (index + 1), List.flatMap_cons]
      rfl
  have source (number : Nat) (s : Source) :
      (s.elements.filter (!·.isLibrary)).map (fun e => (e.owner, e.method)) =
        (s.contracts number).flatMap Contract.methods := by
    rw [Source.contracts_eq]
    cases passed : s.isPassedOver with
    | true =>
      have none : s.elements.filter (!·.isLibrary) = [] := List.filter_eq_nil_iff.mpr
        fun e member => by simp [Source.isLibrary_of_mem member, passed]
      rw [none]
      rfl
    | false =>
      have all : s.elements.filter (!·.isLibrary) = s.elements := List.filter_eq_self.mpr
        fun e member => by simp [Source.isLibrary_of_mem member, passed]
      rw [all, if_neg Bool.false_ne_true, classes]
      simp [Source.elements, List.map_flatMap, Function.comp_def]
  have sources (number : Nat) (ss : List Source) :
      ((ss.flatMap Source.elements).filter (!·.isLibrary)).map (fun e => (e.owner, e.method)) =
        ((ss.zipIdx number).flatMap fun p => p.1.contracts p.2).flatMap Contract.methods := by
    induction ss generalizing number with
    | nil => rfl
    | cons s ss ih =>
      rw [List.flatMap_cons, List.filter_append, List.map_append, source number, ih (number + 1),
        List.zipIdx_cons, List.flatMap_cons, List.flatMap_append]
  exact sources 0 code.sources

theorem contracts_keys_sublist (code : Codebase) :
    ((code.contracts.flatMap Contract.methods).map (·.2.key)).Sublist
      (code.methods.map (·.key)) := by
  rw [← map_visited, ← map_method_elements, List.map_map, List.map_map]
  exact List.filter_sublist.map _

theorem surveyed_visitAll {code : Codebase} (walked : code.surveyed.2 = .ok ()) :
    Survey.visitAll { registry := { handles := code.handles } } code.contracts =
      (code.surveyed.1, .ok ()) :=
  Survey.visitSources_ok (Prod.ext rfl walked)

theorem surveyed_sees {code : Codebase} (walked : code.surveyed.2 = .ok ()) :
    code.surveyed.1.Sees code.contracts :=
  Survey.visitAll_induction (Survey.sees_start _)
    (fun _ _ _ _ sees visited => Survey.visitClass_sees sees visited) (surveyed_visitAll walked)

theorem surveyed_adds {code : Codebase} (fresh : code.IsFresh) (walked : code.surveyed.2 = .ok ()) :
    Survey.Adds (code.contracts.flatMap Contract.methods) { registry := { handles := code.handles } }
      code.surveyed.1 := by
  have distinct := fresh.sublist code.contracts_keys_sublist
  refine Survey.visitAll_induction (P := fun us s =>
    ((us.flatMap Contract.methods).map (·.2.key)).Nodup →
      Survey.Adds (us.flatMap Contract.methods) { registry := { handles := code.handles } } s)
    (fun _ => Survey.Adds.refl ⟨rfl, nofun⟩) ?_ (surveyed_visitAll walked) distinct
  intro us v s s' before visited distinct
  rw [List.flatMap_append, List.flatMap_singleton, List.map_append] at distinct
  have adds := before (List.nodup_append.mp distinct).1
  have keys : s.registry.arena.map (·.key) = (us.flatMap Contract.methods).map (·.2.key) := by
    rw [adds.arena, List.nil_append, List.map_map]
    rfl
  rw [List.flatMap_append, List.flatMap_singleton]
  exact adds.trans (Survey.visitClass_adds (adds.steady ⟨rfl, nofun⟩) (keys ▸ distinct) visited)

/-- A survey of fresh code puts every annotated method on record, in the order of the visits and under
the handle that the method has got. -/
theorem records_of_isFresh {code : Codebase} (fresh : code.IsFresh)
    (walked : code.surveyed.2 = .ok ()) :
    List.Forall₂ (fun p r => r = .ofMethod p.1 p.2 r.handle ∧
      code.surveyed.1.registry.HasHandle p.2.key r.handle) code.annotated code.catalog.records := by
  obtain ⟨new, records, -, each⟩ := (surveyed_adds fresh walked).records
  rw [List.nil_append] at records
  rw [List.filter_flatMap] at each
  exact records ▸ each

theorem catalog_plain {code : Codebase} (fresh : code.IsFresh) (walked : code.surveyed.2 = .ok ()) :
    ∀ r ∈ code.catalog.records, r.owner.isComposite = false := by
  intro r member
  obtain ⟨p, listed, own, -⟩ := exists_of_forall₂ (records_of_isFresh fresh walked) member
  obtain ⟨v, visited, inside⟩ := List.mem_flatMap.mp listed
  have owner : r.owner = v.name := by
    rw [own, ← Contract.owner_of_mem_annotated inside]
    rfl
  rw [owner]
  exact (code.surveyed_sees walked).names v visited

/-! ### Loading -/

/-- `f` gives out the next free keys one after another, and `keys` are those that it gave. -/
def Numbers {α β : Type} (f : Nat → α → β × Nat) (keys : β → List Nat) : Prop :=
  ∀ next x, ∃ n, (f next x).2 = next + n ∧ keys (f next x).1 = List.range' next n

theorem Numbers.each {α β : Type} {f : Nat → α → β × Nat} {keys : β → List Nat}
    (numbers : Numbers f keys) : Numbers (enrollEach f) (·.flatMap keys) := by
  intro next xs
  induction xs generalizing next with
  | nil => exact ⟨0, rfl, rfl⟩
  | cons x xs ih =>
    obtain ⟨n, after, first⟩ := numbers next x
    obtain ⟨n', after', others⟩ := ih (f next x).2
    rw [enrollEach]
    refine ⟨n + n', ?_, ?_⟩
    · dsimp only
      rw [after', after, Nat.add_assoc]
    · dsimp only at others ⊢
      rw [List.flatMap_cons, first, others, after, List.range'_append_1]

theorem keys_ofDump (dump : List Dump.Source) :
    (ofDump dump).methods.map (·.key) = List.range (ofDump dump).nextKey := by
  have member : Numbers enrollMember fun m => (m.method?.map (·.key)).toList := by
    intro next m
    cases m with
    | method name decorators => exact ⟨1, rfl, rfl⟩
    | field f => exact ⟨0, rfl, rfl⟩
  have methods (ms : List Member) : (ms.filterMap Member.method?).map (·.key) =
      ms.flatMap fun m => (m.method?.map (·.key)).toList := by
    rw [List.map_filterMap, List.filterMap_eq_flatMap_toList]
  have classes : Numbers enrollClass fun c => c.methods.map (·.key) := by
    intro next c
    obtain ⟨n, after, listed⟩ := member.each next c.members
    exact ⟨n, after, (methods _).trans listed⟩
  have sources : Numbers enrollSource fun s => (s.classes.flatMap (·.methods)).map (·.key) := by
    intro next s
    obtain ⟨n, after, listed⟩ := classes.each next s.classes
    exact ⟨n, after, List.map_flatMap.trans listed⟩
  obtain ⟨n, after, listed⟩ := sources.each 0 dump
  have free : (ofDump dump).nextKey = n := after.trans (Nat.zero_add n)
  have all : (ofDump dump).methods.map (·.key) = List.range' 0 n := List.map_flatMap.trans listed
  rw [free, all, List.range_eq_range']

theorem isFresh_ofDump (dump : List Dump.Source) : (ofDump dump).IsFresh := by
  unfold IsFresh
  rw [keys_ofDump]
  exact List.nodup_range

end Codebase

end ContractAbi
