import ContractAbi.Proofs.Reruns

/-!
# Loading

The keys of loaded methods are numbers in the order of the dump. But for these, a declaration is
loaded in the same way wherever it stands.
-/

namespace ContractAbi

/-! ### Declarations without keys -/

def Method.unkeyed (m : Method) : Method :=
  { m with key := 0 }

def Source.unkeyed (s : Source) : Source :=
  { s with classes := s.classes.map Class.unkeyed }

def Element.unkeyed (e : Element) : Element :=
  { e with method := e.method.unkeyed }

theorem Member.method?_unkeyed (m : Member) : m.unkeyed.method? = m.method?.map Method.unkeyed := by
  cases m <;> rfl

theorem Member.field?_unkeyed (m : Member) : m.unkeyed.field? = m.field? := by
  cases m <;> rfl

theorem Member.isMethodNamed_unkeyed (name : Name) (m : Member) :
    m.unkeyed.isMethodNamed name = m.isMethodNamed name := by
  cases m <;> rfl

namespace Class

theorem unkeyed_unkeyed (c : Class) : c.unkeyed.unkeyed = c.unkeyed := by
  have member (m : Member) : m.unkeyed.unkeyed = m.unkeyed := by
    cases m <;> rfl
  simp [unkeyed, Function.comp_def, member]

theorem methods_unkeyed (c : Class) : c.unkeyed.methods = c.methods.map Method.unkeyed := by
  simp [methods, unkeyed, List.filterMap_map, List.map_filterMap, Member.method?_unkeyed]

theorem fields_unkeyed (c : Class) : c.unkeyed.fields = c.fields := by
  simp [fields, unkeyed, List.filterMap_map, Member.field?_unkeyed]

theorem findMethod?_unkeyed (c : Class) (name : Name) :
    c.unkeyed.findMethod? name = c.findMethod? name := by
  simp [findMethod?, unkeyed, List.findIdx?_map, Function.comp_def, Member.isMethodNamed_unkeyed]

theorem event?_unkeyed (c : Class) (path : Json) : c.unkeyed.event? path = c.event? path := by
  unfold event?
  rw [fields_unkeyed]
  rfl

theorem splice_unkeyed (c : Class) (m : Method) :
    c.unkeyed.splice m.unkeyed = ((c.splice m).1.unkeyed, (c.splice m).2) := by
  have place : c.unkeyed.findMethod? m.unkeyed.name = c.findMethod? m.name :=
    c.findMethod?_unkeyed m.name
  have same : (Member.method m).unkeyed = .method m.unkeyed := rfl
  unfold splice
  rw [place]
  cases c.findMethod? m.name <;> simp [unkeyed, same, List.map_set]

theorem isVisitable_unkeyed {c : Class} {path : Json} :
    c.unkeyed.IsVisitable path ↔ c.IsVisitable path := by
  have methods : (∀ m ∈ c.unkeyed.methods, ∀ d ∈ m.decorators, d.name.isComposite = false) ↔
      ∀ m ∈ c.methods, ∀ d ∈ m.decorators, d.name.isComposite = false := by
    rw [methods_unkeyed, List.forall_mem_map]
    rfl
  refine ⟨fun h => ⟨h.name, ?_, methods.mp h.decorators⟩,
    fun h => ⟨h.name, ?_, methods.mpr h.decorators⟩⟩
  · rw [← c.event?_unkeyed]
    exact h.event
  · rw [c.event?_unkeyed]
    exact h.event

end Class

theorem Source.isVisitable_unkeyed {s : Source} : s.unkeyed.IsVisitable ↔ s.IsVisitable := by
  have standard : s.unkeyed.isStandard = s.isStandard := rfl
  unfold IsVisitable
  rw [standard, unkeyed, List.forall_mem_map]
  simp only [Class.isVisitable_unkeyed]

theorem Source.elements_unkeyed (s : Source) :
    s.unkeyed.elements = s.elements.map Element.unkeyed := by
  unfold elements
  rw [unkeyed, List.flatMap_map, List.map_flatMap]
  refine congrArg (s.classes.flatMap ·) (funext fun c => ?_)
  rw [Class.methods_unkeyed, List.map_map, List.map_map]
  rfl

/-! ### What is loaded -/

namespace Dump

def Member.loaded : Member → ContractAbi.Member
  | method name decorators => .method { key := 0, name, decorators }
  | field f => .field f

def Class.loaded (c : Class) : ContractAbi.Class :=
  ⟨c.name, c.members.map Member.loaded, c.decorators, c.base⟩

/-- The source as it is loaded, but for the keys of its methods. -/
def Source.loaded (s : Source) : ContractAbi.Source :=
  ⟨s.path, s.classes.map Class.loaded, s.isLibrary⟩

end Dump

namespace Codebase

theorem map_enrollEach {α β γ : Type} {f : Nat → α → β × Nat} {g : β → γ} {h : α → γ}
    (same : ∀ next x, g (f next x).1 = h x) (next : Nat) (xs : List α) :
    (enrollEach f next xs).1.map g = xs.map h := by
  induction xs generalizing next with
  | nil => rfl
  | cons x xs ih =>
    rw [enrollEach, List.map_cons, List.map_cons, same next x]
    exact congrArg _ (ih _)

theorem unkeyed_enrollMember (next : Nat) (m : Dump.Member) :
    (enrollMember next m).1.unkeyed = m.loaded := by
  cases m <;> rfl

theorem unkeyed_enrollClass (next : Nat) (c : Dump.Class) :
    (enrollClass next c).1.unkeyed = c.loaded :=
  congrArg (fun members => (⟨c.name, members, c.decorators, c.base⟩ : Class))
    (map_enrollEach unkeyed_enrollMember next c.members)

theorem unkeyed_enrollSource (next : Nat) (s : Dump.Source) :
    (enrollSource next s).1.unkeyed = s.loaded :=
  congrArg (fun classes => (⟨s.path, classes, s.isLibrary⟩ : Source))
    (map_enrollEach unkeyed_enrollClass next s.classes)

theorem unkeyed_sources_ofDump (dump : List Dump.Source) :
    (ofDump dump).sources.map Source.unkeyed = dump.map Dump.Source.loaded :=
  map_enrollEach unkeyed_enrollSource 0 dump

theorem forall_sources_ofDump {P : Source → Prop} {dump : List Dump.Source} :
    (∀ s ∈ (ofDump dump).sources, P s.unkeyed) ↔ ∀ s ∈ dump, P s.loaded := by
  rw [← List.forall_mem_map, unkeyed_sources_ofDump, List.forall_mem_map]

theorem surveyed_ofDump {dump : List Dump.Source} :
    (ofDump dump).surveyed.2 = .ok () ↔ ∀ s ∈ dump, s.loaded.IsVisitable := by
  rw [← forall_sources_ofDump]
  simp only [Source.isVisitable_unkeyed]
  exact Survey.visitSources_completes

end Codebase

end ContractAbi
