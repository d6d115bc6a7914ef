import ContractAbi.Catalog.Survey
import ContractAbi.Proofs.Handles
import Mathlib.Data.List.TakeWhile

/-!
# What a survey leaves behind

Every record of a survey that came to its end belongs to a class that was met, holds the handle of a
method of that class, and has no call yet: `surveyed_sound`.
-/

namespace ContractAbi

/-! ### Visiting one method -/

namespace Record

@[simp] theorem merge_handle (r : Record) (a : Annotations) : (r.merge a).handle = r.handle := rfl

end Record

namespace Catalog

/-- A record after a method has been entered was there before, perhaps without these annotations, or
is the method's own. -/
theorem mem_records_enter {c : Catalog} {m : Method} {handle : Nat} {owner : Name} {a : Annotations}
    {r : Record} (member : r ∈ (c.enter m handle owner a).records) :
    r ∈ c.records ∨ (∃ old ∈ c.records, old.handle = handle ∧ r = old.merge a) ∨
      r = (Record.blank m handle owner).merge a := by
  unfold enter at member
  split at member
  · obtain ⟨old, listed, same⟩ := List.mem_map.mp member
    split at same
    · rename_i own
      exact Or.inr (Or.inl ⟨old, listed, own, same.symm⟩)
    · exact Or.inl (same ▸ listed)
  · split at member
    · rcases List.mem_append.mp member with old | new
      · exact Or.inl old
      · exact Or.inr (Or.inr (List.mem_singleton.mp new))
    · exact Or.inl member

theorem enter_classes (c : Catalog) (m : Method) (handle : Nat) (owner : Name) (a : Annotations) :
    (c.enter m handle owner a).classes = c.classes := by
  unfold enter
  split
  · rfl
  · split <;> rfl

theorem enter_events (c : Catalog) (m : Method) (handle : Nat) (owner : Name) (a : Annotations) :
    (c.enter m handle owner a).events = c.events := by
  unfold enter
  split
  · rfl
  · split <;> rfl

/-- A visit that nothing stops enters all annotations of the method. -/
theorem visit_ok {c c' : Catalog} {m : Method} {handle : Nat} {owner : Name}
    (h : c.visit m handle owner = (c', .ok ())) :
    c' = { c.enter m handle owner (Annotations.addAll m.name (c.heldFor handle) m.decorators) with
      held := c.held.erase handle } := by
  unfold visit at h
  split at h
  · rename_i nothing
    have all : m.decorators.takeWhile (!c.stops handle owner ·) = m.decorators := by
      rw [List.find?_eq_none] at nothing
      exact List.takeWhile_eq_self_iff.mpr fun d listed => by simpa using nothing d listed
    rw [all] at h
    exact (Prod.mk.inj h).1.symm
  · cases (Prod.mk.inj h).2

/-- A visit is stopped by a decorator of the method, and for what its name is. -/
theorem visit_outcome (c : Catalog) (m : Method) (handle : Nat) (owner : Name) :
    (c.visit m handle owner).2 =
      if m.decorators.any (c.stops handle owner) then .error .compositeName else .ok () := by
  unfold visit
  cases found : m.decorators.find? (c.stops handle owner) with
  | none =>
    have passed : m.decorators.any (c.stops handle owner) = false := by
      simpa using found
    rw [passed]
    rfl
  | some d =>
    have stopped : m.decorators.any (c.stops handle owner) = true :=
      List.any_eq_true.mpr ⟨d, List.mem_of_find?_eq_some found, List.find?_some found⟩
    rw [stopped]
    rfl

theorem heldFor_of_empty {c : Catalog} (empty : c.held.entries = []) (handle : Nat) :
    c.heldFor handle = {} := by
  simp [heldFor, Table.get?, empty]

theorem contains_meet {c : Catalog} {key : Json} (name : Name) (site : Site) (path : Json)
    (known : key = name.key ∨ c.classes.contains key = true) :
    (c.meet name site path).classes.contains key = true :=
  Table.contains_insert.mpr known

end Catalog

/-! ### Visits one after another -/

/-- Goes on with `f` unless a fault has stopped the visit. -/
def andThen {σ : Type} (f : σ → σ × Except Fault Unit) :
    σ × Except Fault Unit → σ × Except Fault Unit
  | (s, .ok ()) => f s
  | (s, .error fault) => (s, .error fault)

theorem andThen_ok {σ : Type} {f : σ → σ × Except Fault Unit} {x : σ × Except Fault Unit} {s' : σ}
    (h : andThen f x = (s', .ok ())) : ∃ s, x = (s, .ok ()) ∧ f s = (s', .ok ()) := by
  obtain ⟨s, outcome⟩ := x
  cases outcome with
  | error fault => cases (Prod.mk.inj h).2
  | ok _ => exact ⟨s, rfl, h⟩

theorem andThen_completes {σ : Type} {f : σ → σ × Except Fault Unit} {x : σ × Except Fault Unit} :
    (andThen f x).2 = .ok () ↔ x.2 = .ok () ∧ (f x.1).2 = .ok () := by
  obtain ⟨s, outcome⟩ := x
  cases outcome <;> simp [andThen]

namespace Survey

theorem visitMethods_cons (s : Survey) (owner : Name) (m : Method) (ms : List Method) :
    s.visitMethods owner (m :: ms) = andThen (·.visitMethods owner ms) (s.visitMethod m owner) := by
  rw [visitMethods]
  rcases s.visitMethod m owner with ⟨next, outcome⟩
  cases outcome <;> rfl

theorem visitClasses_cons (number : Nat) (path : Json) (s : Survey) (index : Nat) (c : Class)
    (cs : List Class) :
    visitClasses number path s index (c :: cs) =
      andThen (visitClasses number path · (index + 1) cs) (s.visitClass ⟨number, index⟩ c path) := by
  rw [visitClasses]
  rcases s.visitClass ⟨number, index⟩ c path with ⟨next, outcome⟩
  cases outcome <;> rfl

theorem visitSources_cons (s : Survey) (number : Nat) (source : Source) (rest : List Source) :
    s.visitSources number (source :: rest) =
      andThen (·.visitSources (number + 1) rest) (s.visitSource number source) := by
  rw [visitSources]
  rcases s.visitSource number source with ⟨next, outcome⟩
  cases outcome <;> rfl

end Survey

/-! ### Whole surveys -/

namespace Survey

/-- What holds of a survey of methods that have these keys, unless a fault stopped it. -/
structure Sound (keys : List Nat) (s : Survey) : Prop where
  nothingHeld : s.catalog.held.entries = []
  unsettled : ∀ r ∈ s.catalog.records, r.call = none
  met : ∀ r ∈ s.catalog.records, s.catalog.classes.contains r.owner.key = true
  registered : ∀ r ∈ s.catalog.records, ∃ key ∈ keys, s.registry.HasHandle key r.handle

theorem sound_start (keys : List Nat) (registry : Registry) : Sound keys { registry } :=
  ⟨rfl, nofun, nofun, nofun⟩

theorem visitMethod_eq (s : Survey) (m : Method) (owner : Name) :
    s.visitMethod m owner =
      (⟨(s.registry.add m owner).2, (s.catalog.visit m (s.registry.add m owner).1 owner).1⟩,
        (s.catalog.visit m (s.registry.add m owner).1 owner).2) :=
  rfl

theorem visitMethod_ok {s s' : Survey} {m : Method} {owner : Name}
    (empty : s.catalog.held.entries = []) (h : s.visitMethod m owner = (s', .ok ())) :
    s'.registry = (s.registry.add m owner).2 ∧
      s'.catalog = { s.catalog.enter m (s.registry.add m owner).1 owner (Annotations.ofMethod m) with
        held := {} } := by
  rw [visitMethod_eq, Prod.mk.injEq] at h
  obtain ⟨rfl, outcome⟩ := h
  have visited := Catalog.visit_ok (Prod.ext rfl outcome)
  rw [Catalog.heldFor_of_empty empty] at visited
  refine ⟨rfl, visited.trans ?_⟩
  simp [Table.erase, empty, Annotations.ofMethod]

theorem visitMethod_sound {keys : List Nat} {s s' : Survey} {m : Method} {owner : Name}
    (sound : s.Sound keys) (known : m.key ∈ keys)
    (listed : s.catalog.classes.contains owner.key = true)
    (h : s.visitMethod m owner = (s', .ok ())) :
    s'.Sound keys ∧ s'.catalog.classes = s.catalog.classes := by
  obtain ⟨registry, catalog⟩ := visitMethod_ok sound.nothingHeld h
  have own := s.registry.add_hasHandle m owner
  have classes : s'.catalog.classes = s.catalog.classes := by
    rw [catalog]
    exact Catalog.enter_classes ..
  refine ⟨⟨by rw [catalog], ?_, ?_, ?_⟩, classes⟩
  all_goals
    intro r member
    rw [catalog] at member
    have cases := Catalog.mem_records_enter member
  · rcases cases with old | ⟨old, before, -, rfl⟩ | rfl
    · exact sound.unsettled r old
    · exact sound.unsettled old before
    · rfl
  · rw [classes]
    rcases cases with old | ⟨old, before, -, rfl⟩ | rfl
    · exact sound.met r old
    · exact sound.met old before
    · exact listed
  · rw [registry]
    rcases cases with old | ⟨old, before, same, rfl⟩ | rfl
    · obtain ⟨key, present, has⟩ := sound.registered r old
      exact ⟨key, present, Registry.hasHandle_add has m owner⟩
    · exact ⟨m.key, known, by rw [Record.merge_handle, same]; exact own⟩
    · exact ⟨m.key, known, own⟩

/-- A property that every visit of a method keeps is kept by visiting them in turn. -/
theorem visitMethods_keeps {P : Survey → Prop} {s s' : Survey} {owner : Name} {ms : List Method}
    (keeps : ∀ m ∈ ms, ∀ s s', P s → s.visitMethod m owner = (s', .ok ()) → P s')
    (start : P s) (h : s.visitMethods owner ms = (s', .ok ())) : P s' := by
  induction ms generalizing s with
  | nil => cases h; exact start
  | cons m ms ih =>
    rw [visitMethods_cons] at h
    obtain ⟨next, visited, h⟩ := andThen_ok h
    exact ih (fun m member => keeps m (List.mem_cons_of_mem _ member))
      (keeps m List.mem_cons_self _ _ start visited) h

theorem visitMethods_sound {keys : List Nat} {s s' : Survey} {owner : Name} {ms : List Method}
    (sound : s.Sound keys) (known : ∀ m ∈ ms, m.key ∈ keys)
    (listed : s.catalog.classes.contains owner.key = true)
    (h : s.visitMethods owner ms = (s', .ok ())) : s'.Sound keys := by
  -- The class has to stay listed, or the next method's record would belong to an unmet one.
  let kept (s : Survey) : Prop := s.Sound keys ∧ s.catalog.classes.contains owner.key = true
  refine (visitMethods_keeps (P := kept) ?_ ⟨sound, listed⟩ h).1
  intro m member s s' before visited
  obtain ⟨after, classes⟩ := visitMethod_sound before.1 (known m member) before.2 visited
  exact ⟨after, classes ▸ before.2⟩

/-- A class that was visited to its end was met, its event was entered, and then its methods were
visited. -/
theorem visitClass_ok {s s' : Survey} {site : Site} {c : Class} {path : Json}
    (h : s.visitClass site c path = (s', .ok ())) :
    ∃ event, c.event? path = .ok event ∧
      visitMethods { s with catalog := { s.catalog.meet c.name site path with
        events := s.catalog.events ++ event.toList } } c.name c.methods = (s', .ok ()) := by
  unfold visitClass at h
  split at h
  · cases (Prod.mk.inj h).2
  · dsimp only at h
    split at h
    · cases (Prod.mk.inj h).2
    · rename_i event found
      exact ⟨event, found, h⟩

theorem visitClass_sound {keys : List Nat} {s s' : Survey} {site : Site} {c : Class} {path : Json}
    (sound : s.Sound keys) (known : ∀ m ∈ c.methods, m.key ∈ keys)
    (h : s.visitClass site c path = (s', .ok ())) : s'.Sound keys := by
  obtain ⟨event, -, methods⟩ := visitClass_ok h
  refine visitMethods_sound ?_ known (Catalog.contains_meet _ _ _ (Or.inl rfl)) methods
  exact ⟨sound.nothingHeld, sound.unsettled,
    fun r member => Catalog.contains_meet _ _ _ (Or.inr (sound.met r member)), sound.registered⟩

/-! A property that visiting a class keeps is one that visiting sources keeps. -/

section Keeps

variable {P : Survey → Prop} {s s' : Survey}

theorem visitClasses_keeps {number index : Nat} {path : Json} {cs : List Class}
    (keeps : ∀ c ∈ cs, ∀ s s' site, P s → s.visitClass site c path = (s', .ok ()) → P s')
    (start : P s) (h : visitClasses number path s index cs = (s', .ok ())) : P s' := by
  induction cs generalizing s index with
  | nil => cases h; exact start
  | cons c cs ih =>
    rw [visitClasses_cons] at h
    obtain ⟨next, visited, h⟩ := andThen_ok h
    exact ih (fun c member => keeps c (List.mem_cons_of_mem _ member))
      (keeps c List.mem_cons_self _ _ _ start visited) h

theorem visitSources_keeps {number : Nat} {sources : List Source}
    (keeps : ∀ source ∈ sources, ∀ c ∈ source.classes, ∀ s s' site, P s →
      s.visitClass site c source.path = (s', .ok ()) → P s')
    (start : P s) (h : s.visitSources number sources = (s', .ok ())) : P s' := by
  induction sources generalizing s number with
  | nil => cases h; exact start
  | cons source rest ih =>
    rw [visitSources_cons] at h
    obtain ⟨next, visited, h⟩ := andThen_ok h
    refine ih (fun source member => keeps source (List.mem_cons_of_mem _ member)) ?_ h
    unfold visitSource at visited
    split at visited
    · cases (Prod.mk.inj visited).2
    · cases visited; exact start
    · exact visitClasses_keeps (keeps source List.mem_cons_self) start visited

end Keeps

end Survey

/-! ### Surveys that nothing stops -/

/-- Nothing about the class stops a visit. -/
structure Class.IsVisitable (c : Class) (path : Json) : Prop where
  name : c.name.isComposite = false
  event : ∃ event, c.event? path = .ok event
  decorators : ∀ m ∈ c.methods, ∀ d ∈ m.decorators, d.name.isComposite = false

/-- Nothing in the source stops a survey. -/
def Source.IsVisitable (s : Source) : Prop :=
  s.isStandard = .ok true ∨ s.isStandard = .ok false ∧ ∀ c ∈ s.classes, c.IsVisitable s.path

namespace Survey

theorem visitMethod_completes {s : Survey} {owner : Name} (plain : owner.isComposite = false)
    (m : Method) : (s.visitMethod m owner).2 = .ok () ↔
      ∀ d ∈ m.decorators, d.name.isComposite = false := by
  have stops (handle : Nat) (d : Decorator) :
      s.catalog.stops handle owner d = d.name.isComposite := by simp [Catalog.stops, plain]
  rw [visitMethod_eq, Catalog.visit_outcome]
  simp [stops]

theorem visitMethods_completes {s : Survey} {owner : Name} (plain : owner.isComposite = false)
    {ms : List Method} : (s.visitMethods owner ms).2 = .ok () ↔
      ∀ m ∈ ms, ∀ d ∈ m.decorators, d.name.isComposite = false := by
  induction ms generalizing s with
  | nil => exact iff_of_true rfl nofun
  | cons m ms ih =>
    rw [visitMethods_cons, andThen_completes, visitMethod_completes plain, List.forall_mem_cons]
    exact and_congr_right fun _ => ih

theorem visitClass_completes {s : Survey} {site : Site} {c : Class} {path : Json} :
    (s.visitClass site c path).2 = .ok () ↔ c.IsVisitable path := by
  have parts : c.IsVisitable path ↔ c.name.isComposite = false ∧
      (∃ event, c.event? path = .ok event) ∧
      ∀ m ∈ c.methods, ∀ d ∈ m.decorators, d.name.isComposite = false :=
    ⟨fun h => ⟨h.name, h.event, h.decorators⟩, fun h => ⟨h.1, h.2.1, h.2.2⟩⟩
  rw [parts]
  unfold visitClass
  cases plain : c.name.isComposite with
  | true => simp
  | false =>
    cases event : c.event? path with
    | error fault => simp
    | ok event => simp [visitMethods_completes plain]

theorem visitClasses_completes {s : Survey} {number index : Nat} {path : Json} {cs : List Class} :
    (visitClasses number path s index cs).2 = .ok () ↔ ∀ c ∈ cs, c.IsVisitable path := by
  induction cs generalizing s index with
  | nil => exact iff_of_true rfl nofun
  | cons c cs ih =>
    rw [visitClasses_cons, andThen_completes, visitClass_completes, List.forall_mem_cons]
    exact and_congr_right fun _ => ih

theorem visitSource_completes {s : Survey} {number : Nat} {source : Source} :
    (s.visitSource number source).2 = .ok () ↔ source.IsVisitable := by
  unfold visitSource Source.IsVisitable
  cases source.isStandard with
  | error fault => simp
  | ok standard => cases standard <;> simp [visitClasses_completes]

theorem visitSources_completes {s : Survey} {number : Nat} {sources : List Source} :
    (s.visitSources number sources).2 = .ok () ↔ ∀ source ∈ sources, source.IsVisitable := by
  induction sources generalizing s number with
  | nil => exact iff_of_true rfl nofun
  | cons source rest ih =>
    rw [visitSources_cons, andThen_completes, visitSource_completes, List.forall_mem_cons]
    exact and_congr_right fun _ => ih

end Survey

namespace Codebase

def methods (code : Codebase) : List Method :=
  code.sources.flatMap fun source => source.classes.flatMap (·.methods)

/-- All methods in the order in which they are declared. -/
def elements (code : Codebase) : List Element :=
  code.sources.flatMap Source.elements

theorem map_method_elements (code : Codebase) : code.elements.map (·.method) = code.methods := by
  simp [elements, Source.elements, methods, List.map_flatMap, Function.comp_def]

/-- The survey that a run of the transform makes of a codebase. -/
def surveyed (code : Codebase) : Survey × Except Fault Unit :=
  Survey.visitSources { registry := { handles := code.handles } } 0 code.sources

theorem surveyed_sound {code : Codebase} {s : Survey} (h : code.surveyed = (s, .ok ())) :
    s.Sound (code.methods.map (·.key)) := by
  refine Survey.visitSources_keeps ?_ (Survey.sound_start _ _) h
  intro source listed c declared s s' site sound visited
  refine Survey.visitClass_sound sound (fun m member => List.mem_map_of_mem ?_) visited
  exact List.mem_flatMap.mpr ⟨source, listed, List.mem_flatMap.mpr ⟨c, declared, member⟩⟩

end Codebase

end ContractAbi
