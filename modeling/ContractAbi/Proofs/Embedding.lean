import ContractAbi.Proofs.Loading

/-!
# Sources among libraries

The sources of one codebase may stand in another among more libraries, with other keys and other
numbers. A survey passes the libraries over, so two such surveys go in step: they stop at the same
fault, or they end with the same catalog but for the numbers of the sources.
-/

namespace ContractAbi

/-! ### Catalogs with other places -/

def Site.moved (place : Nat → Nat) (site : Site) : Site :=
  { site with source := place site.source }

theorem Site.moved_inj {place : Nat → Nat} (injective : place.Injective) {site site' : Site} :
    site.moved place = site'.moved place ↔ site = site' := by
  cases site
  cases site'
  simp [moved, injective.eq_iff]

def Visit.moved (place : Nat → Nat) (v : Visit) : Visit :=
  { v with site := v.site.moved place }

namespace Table

variable {κ α β : Type} [DecidableEq κ]

def mapValues (f : α → β) (t : Table κ α) : Table κ β :=
  ⟨t.entries.map fun p => (p.1, f p.2)⟩

theorem get?_mapValues (f : α → β) (t : Table κ α) (k : κ) :
    (t.mapValues f).get? k = (t.get? k).map f := by
  unfold get? mapValues
  induction t.entries with
  | nil => rfl
  | cons entry rest ih =>
    rw [List.map_cons, lookup_cons, ih, lookup_cons]
    split <;> rfl

theorem insert_mapValues (f : α → β) (t : Table κ α) (k : κ) (v : α) :
    (t.mapValues f).insert k (f v) = (t.insert k v).mapValues f := by
  unfold insert mapValues
  congr 1
  induction t.entries with
  | nil => rfl
  | cons entry rest ih =>
    simp only [List.map_cons, insertInto, ih]
    split <;> rfl

end Table

namespace Catalog

/-- The catalog with the classes at their places under another numbering of the sources. -/
def moved (place : Nat → Nat) (c : Catalog) : Catalog :=
  { c with classes := c.classes.mapValues (Visit.moved place) }

variable {place : Nat → Nat}

theorem meet_moved (c : Catalog) (name : Name) (site : Site) (path : Json) :
    (c.moved place).meet name (site.moved place) path = (c.meet name site path).moved place := by
  have first : ((c.moved place).classes.get? name.key).map (·.name) =
      (c.classes.get? name.key).map (·.name) := by
    rw [moved, Table.get?_mapValues, Option.map_map]
    rfl
  unfold meet
  dsimp only
  rw [first]
  exact congrArg (fun classes => { c with classes })
    (Table.insert_mapValues (Visit.moved place) c.classes name.key ⟨_, site, path⟩)

theorem enter_moved (c : Catalog) (m : Method) (handle : Nat) (owner : Name) (a : Annotations) :
    (c.moved place).enter m handle owner a = (c.enter m handle owner a).moved place := by
  have recorded : (c.moved place).isRecorded handle = c.isRecorded handle := rfl
  unfold enter
  rw [recorded]
  split
  · rfl
  · split <;> rfl

theorem visit_moved (c : Catalog) (m : Method) (handle : Nat) (owner : Name) :
    (c.moved place).visit m.unkeyed handle owner =
      ((c.visit m handle owner).1.moved place, (c.visit m handle owner).2) := by
  have stops : (c.moved place).stops handle owner = c.stops handle owner := rfl
  have held : (c.moved place).heldFor handle = c.heldFor handle := rfl
  have enter (a : Annotations) : (c.moved place).enter m.unkeyed handle owner a =
      (c.enter m handle owner a).moved place := c.enter_moved m handle owner a
  unfold visit hold
  dsimp only [Method.unkeyed] at enter ⊢
  rw [stops, held]
  simp only [enter]
  cases m.decorators.find? (c.stops handle owner) with
  | none => rfl
  | some d =>
    dsimp only
    split <;> rfl

end Catalog

/-! ### Methods that have no handle yet -/

theorem Registry.add_of_unheld {r : Registry} {m : Method} (unheld : r.handles.get? m.key = none)
    (owner : Name) : r.add m owner =
      (r.arena.length,
        { handles := r.handles.insert m.key r.arena.length
          arena := r.arena ++ [⟨m.key, m.name, owner⟩] }) := by
  simp [add, handleOf?, unheld]

namespace Survey

/-- None of these methods has a handle yet, and no two of them share a key. -/
structure Awaits (s : Survey) (ms : List Method) : Prop where
  distinct : (ms.map (·.key)).Nodup
  unheld : ∀ m ∈ ms, s.registry.handles.get? m.key = none

theorem Awaits.later {s : Survey} {own ms : List Method} (awaits : s.Awaits (own ++ ms)) :
    s.Awaits ms := by
  obtain ⟨distinct, unheld⟩ := awaits
  rw [List.map_append, List.nodup_append] at distinct
  exact ⟨distinct.2.1, fun m member => unheld m (List.mem_append_right own member)⟩

theorem Awaits.visitMethod {s : Survey} {m : Method} {ms : List Method} (awaits : s.Awaits (m :: ms))
    (owner : Name) : (s.visitMethod m owner).1.Awaits ms := by
  obtain ⟨distinct, unheld⟩ := awaits
  rw [List.map_cons, List.nodup_cons] at distinct
  refine ⟨distinct.2, fun other member => ?_⟩
  have different : other.key ≠ m.key := fun same =>
    distinct.1 (same ▸ List.mem_map_of_mem member)
  rw [visitMethod_eq, Registry.add_of_unheld (unheld m List.mem_cons_self)]
  rw [Table.get?_insert_of_ne _ _ different]
  exact unheld other (List.mem_cons_of_mem m member)

/-! ### Surveys in step -/

/-- The second survey has got to where the first one has. Both still have methods to visit. -/
structure InStep (place : Nat → Nat) (ms ms' : List Method) (s s' : Survey) : Prop where
  catalog : s'.catalog = s.catalog.moved place
  arena : s'.registry.arena.length = s.registry.arena.length
  awaits : s.Awaits ms
  awaits' : s'.Awaits ms'

/-- Both surveys have been stopped by the same fault, or they are in step. -/
structure EndInStep (place : Nat → Nat) (ms ms' : List Method) (x x' : Survey × Except Fault Unit) :
    Prop where
  outcome : x'.2 = x.2
  inStep : x.2 = .ok () → InStep place ms ms' x.1 x'.1

variable {place : Nat → Nat} {ms ms' : List Method} {s s' : Survey}

theorem InStep.later {own own' : List Method} (same : InStep place (own ++ ms) (own' ++ ms') s s') :
    InStep place ms ms' s s' :=
  ⟨same.catalog, same.arena, same.awaits.later, same.awaits'.later⟩

theorem InStep.ended (same : InStep place ms ms' s s') :
    EndInStep place ms ms' (s, .ok ()) (s', .ok ()) :=
  ⟨rfl, fun _ => same⟩

theorem endInStep_error (fault : Fault) :
    EndInStep place ms ms' (s, .error fault) (s', .error fault) :=
  ⟨rfl, nofun⟩

theorem EndInStep.andThen {ns ns' : List Method} {x x' : Survey × Except Fault Unit}
    {f f' : Survey → Survey × Except Fault Unit} (first : EndInStep place ms ms' x x')
    (next : ∀ s s', InStep place ms ms' s s' → EndInStep place ns ns' (f s) (f' s')) :
    EndInStep place ns ns' (andThen f x) (andThen f' x') := by
  obtain ⟨s, outcome⟩ := x
  obtain ⟨s', outcome'⟩ := x'
  obtain ⟨same, inStep⟩ := first
  cases same
  cases outcome with
  | error fault => exact endInStep_error fault
  | ok _ => exact next s s' (inStep rfl)

theorem visitMethod_inStep {m m' : Method} (same : InStep place (m :: ms) (m' :: ms') s s')
    (method : m'.unkeyed = m.unkeyed) (owner : Name) :
    EndInStep place ms ms' (s.visitMethod m owner) (s'.visitMethod m' owner) := by
  have awaits := same.awaits.visitMethod owner
  have awaits' := same.awaits'.visitMethod owner
  have added := Registry.add_of_unheld (same.awaits.unheld m List.mem_cons_self) owner
  have added' := Registry.add_of_unheld (same.awaits'.unheld m' List.mem_cons_self) owner
  have visited : s'.catalog.visit m' s.registry.arena.length owner =
      ((s.catalog.visit m s.registry.arena.length owner).1.moved place,
        (s.catalog.visit m s.registry.arena.length owner).2) := by
    rw [same.catalog, ← Catalog.visit_moved, ← method]
    rfl
  rw [visitMethod_eq, added] at awaits ⊢
  rw [visitMethod_eq, added', same.arena] at awaits' ⊢
  rw [visited] at awaits' ⊢
  exact ⟨rfl, fun _ => ⟨rfl, by simp [same.arena], awaits, awaits'⟩⟩

theorem visitMethods_inStep {own own' : List Method}
    (same : InStep place (own ++ ms) (own' ++ ms') s s')
    (methods : own'.map Method.unkeyed = own.map Method.unkeyed) (owner : Name) :
    EndInStep place ms ms' (s.visitMethods owner own) (s'.visitMethods owner own') := by
  induction own generalizing own' s s' with
  | nil =>
    rw [List.map_nil, List.map_eq_nil_iff] at methods
    subst methods
    exact same.ended
  | cons m own ih =>
    obtain ⟨m', own', rfl, first, rest⟩ := List.map_eq_cons_iff.mp methods
    rw [visitMethods_cons, visitMethods_cons]
    exact (visitMethod_inStep same first owner).andThen fun s s' same => ih same rest

theorem visitClass_inStep {c c' : Class}
    (same : InStep place (c.methods ++ ms) (c'.methods ++ ms') s s')
    (declared : c'.unkeyed = c.unkeyed) (site : Site) (path : Json) :
    EndInStep place ms ms' (s.visitClass site c path) (s'.visitClass (site.moved place) c' path) := by
  have name : c'.name = c.name := (congrArg Class.name declared :)
  have event : c'.event? path = c.event? path := by
    rw [← c'.event?_unkeyed, declared, c.event?_unkeyed]
  have methods : c'.methods.map Method.unkeyed = c.methods.map Method.unkeyed := by
    rw [← c'.methods_unkeyed, declared, c.methods_unkeyed]
  unfold visitClass
  rw [name, event]
  cases c.name.isComposite with
  | true => exact endInStep_error _
  | false =>
    cases c.event? path with
    | error fault => exact endInStep_error fault
    | ok found =>
      refine visitMethods_inStep ?_ methods c.name
      refine ⟨?_, same.arena, ⟨same.awaits.distinct, same.awaits.unheld⟩,
        ⟨same.awaits'.distinct, same.awaits'.unheld⟩⟩
      simp only [same.catalog, Catalog.meet_moved]
      rfl

theorem visitClasses_inStep {cs cs' : List Class} {number index : Nat} {path : Json}
    (same : InStep place (cs.flatMap Class.methods ++ ms) (cs'.flatMap Class.methods ++ ms') s s')
    (declared : cs'.map Class.unkeyed = cs.map Class.unkeyed) :
    EndInStep place ms ms' (visitClasses number path s index cs)
      (visitClasses (place number) path s' index cs') := by
  induction cs generalizing cs' s s' index with
  | nil =>
    rw [List.map_nil, List.map_eq_nil_iff] at declared
    subst declared
    exact same.ended
  | cons c cs ih =>
    obtain ⟨c', cs', rfl, first, rest⟩ := List.map_eq_cons_iff.mp declared
    rw [List.flatMap_cons, List.flatMap_cons, List.append_assoc, List.append_assoc] at same
    rw [visitClasses_cons, visitClasses_cons]
    exact (visitClass_inStep same first ⟨number, index⟩ path).andThen fun s s' same => ih same rest

theorem visitSource_inStep {source source' : Source} {number : Nat}
    (same : InStep place (source.classes.flatMap Class.methods ++ ms)
      (source'.classes.flatMap Class.methods ++ ms') s s')
    (declared : source'.unkeyed = source.unkeyed) :
    EndInStep place ms ms' (s.visitSource number source) (s'.visitSource (place number) source') := by
  have path : source'.path = source.path := (congrArg Source.path declared :)
  have library : source'.isLibrary = source.isLibrary :=
    (congrArg Source.isLibrary declared :)
  have classes : source'.classes.map Class.unkeyed = source.classes.map Class.unkeyed :=
    congrArg Source.classes declared
  have standard : source'.isStandard = source.isStandard := by
    unfold Source.isStandard
    rw [path, library]
  unfold visitSource
  rw [standard, path]
  cases source.isStandard with
  | error fault => exact endInStep_error fault
  | ok passed =>
    cases passed with
    | true => exact same.later.ended
    | false => exact visitClasses_inStep same classes

end Survey

/-! ### Sources among libraries -/

/-- The second list has the sources of the first, in their order and at their places, and libraries
between them. The sources of the lists are numbered from `number` and `number'` on. -/
inductive Source.Embedded (place : Nat → Nat) : Nat → List Source → Nat → List Source → Prop where
  | nil {number number' : Nat} (beyond : ∀ i, number' ≤ place (number + i)) :
      Embedded place number [] number' []
  | keep {number number' : Nat} {s s' : Source} {rest rest' : List Source}
      (moved : place number = number') (declared : s'.unkeyed = s.unkeyed)
      (others : Embedded place (number + 1) rest (number' + 1) rest') :
      Embedded place number (s :: rest) number' (s' :: rest')
  | library {number number' : Nat} {s' : Source} {rest rest' : List Source}
      (standard : s'.isStandard = .ok true) (text : s'.path.text?.isSome = true)
      (others : Embedded place number rest (number' + 1) rest') :
      Embedded place number rest number' (s' :: rest')

namespace Source

variable {place : Nat → Nat} {number number' : Nat} {sources sources' : List Source}

theorem Embedded.texts (embedded : Embedded place number sources number' sources') :
    (∀ s' ∈ sources', s'.path.text?.isSome = true) ↔ ∀ s ∈ sources, s.path.text?.isSome = true := by
  induction embedded with
  | nil => exact iff_of_true nofun nofun
  | @keep _ _ s s' _ _ _ declared _ ih =>
    have path : s'.path = s.path := (congrArg Source.path declared :)
    rw [List.forall_mem_cons, List.forall_mem_cons, ih, path]
  | library _ text _ ih => simp [text, ih]

theorem Embedded.getElem? (embedded : Embedded place number sources number' sources') (i : Nat) :
    number' ≤ place (number + i) ∧
      (sources'[place (number + i) - number']?).map unkeyed = (sources[i]?).map unkeyed := by
  induction embedded generalizing i with
  | nil beyond => exact ⟨beyond i, rfl⟩
  | @keep number number' _ _ _ _ moved declared _ ih =>
    cases i with
    | zero => simp [moved, declared]
    | succ i =>
      obtain ⟨beyond, same⟩ := ih i
      have next : number + (i + 1) = number + 1 + i := by omega
      have index : place (number + 1 + i) - number' = place (number + 1 + i) - (number' + 1) + 1 := by
        omega
      rw [next, index, List.getElem?_cons_succ, List.getElem?_cons_succ]
      exact ⟨by omega, same⟩
  | @library number number' _ _ _ _ _ _ ih =>
    obtain ⟨beyond, same⟩ := ih i
    have index : place (number + i) - number' = place (number + i) - (number' + 1) + 1 := by omega
    rw [index, List.getElem?_cons_succ]
    exact ⟨by omega, same⟩

theorem Embedded.elements (embedded : Embedded place number sources number' sources') :
    ((sources'.flatMap Source.elements).filter (!·.isLibrary)).map Element.unkeyed =
      ((sources.flatMap Source.elements).filter (!·.isLibrary)).map Element.unkeyed := by
  have unkeyed (es : List Element) : (es.filter (!·.isLibrary)).map Element.unkeyed =
      (es.map Element.unkeyed).filter (!·.isLibrary) := by
    rw [List.filter_map]
    rfl
  induction embedded with
  | nil => rfl
  | @keep _ _ s s' _ _ _ declared _ ih =>
    have own : s'.elements.map Element.unkeyed = s.elements.map Element.unkeyed := by
      rw [← s'.elements_unkeyed, declared, s.elements_unkeyed]
    rw [List.flatMap_cons, List.flatMap_cons, List.filter_append, List.filter_append, List.map_append,
      List.map_append, ih, unkeyed, unkeyed s.elements, own]
  | @library _ _ s' _ _ standard _ _ ih =>
    have none : s'.elements.filter (!·.isLibrary) = [] := List.filter_eq_nil_iff.mpr
      fun e member => by simp [isLibrary_of_mem member, isPassedOver, standard]
    rw [List.flatMap_cons, List.filter_append, none, List.nil_append, ih]

theorem Embedded.visitSources (embedded : Embedded place number sources number' sources')
    {s s' : Survey}
    (same : Survey.InStep place (sources.flatMap fun s => s.classes.flatMap Class.methods)
      (sources'.flatMap fun s => s.classes.flatMap Class.methods) s s') :
    Survey.EndInStep place [] [] (s.visitSources number sources)
      (s'.visitSources number' sources') := by
  induction embedded generalizing s s' with
  | nil => exact same.ended
  | keep moved declared _ ih =>
    rw [List.flatMap_cons, List.flatMap_cons] at same
    rw [Survey.visitSources_cons, Survey.visitSources_cons, ← moved]
    rw [← moved] at ih
    exact (Survey.visitSource_inStep same declared).andThen fun s s' same => ih same
  | @library _ number' library _ _ standard _ _ ih =>
    have passed : s'.visitSource number' library = (s', .ok ()) := by
      unfold Survey.visitSource
      rw [standard]
    rw [Survey.visitSources_cons, passed]
    exact ih ⟨same.catalog, same.arena, same.awaits, same.awaits'.later⟩

end Source

end ContractAbi
