import ContractAbi.Proofs.Revisiting

/-!
# Warnings about events

What a method emits is kept in its record, or aside if it has none. Whatever classes have been visited
and whatever has stopped a visit, the two places hold what the methods emit whose visits came to their
end: `Survey.Ledger`. An event is reported as unused if neither place has it, but only the records
are searched for events that are not declared.
-/

namespace ContractAbi

/-- The events that the decorators name. -/
def Method.emits (m : Method) : List Text :=
  (sites "emit" m.decorators).flatMap Decorator.unquoted

namespace Contract

/-- The methods that a visit of the class reaches. -/
def begun (v : Contract) : List Method :=
  if v.name.isComposite then []
  else match v.declaration.event? v.path with
    | .ok _ => reached v.declaration.methods
    | .error _ => []

/-- The methods that it gets through. -/
def visited (v : Contract) : List Method :=
  v.begun.filter (!·.hasCompositeSite)

theorem begun_subset (v : Contract) : v.begun ⊆ v.declaration.methods := by
  unfold begun
  split
  · exact List.nil_subset _
  · split
    · exact fun m => mem_of_mem_reached
    · exact List.nil_subset _

theorem flatMap_visited (vs : List Contract) :
    vs.flatMap visited = (vs.flatMap begun).filter (!·.hasCompositeSite) :=
  List.filter_flatMap.symm

end Contract

/-! ### What a visit adds -/

namespace Catalog

variable {c : Catalog} {m : Method} {handle : Nat} {owner : Name} {a : Annotations}

/-- What is emitted by the methods with a record, or by those without. -/
def kept (c : Catalog) : Bool → List Text
  | true => c.records.flatMap (·.emits)
  | false => c.strayEmits

theorem isRecorded_enter {handle' : Nat}
    (met : (c.enter m handle owner a).isRecorded handle' = true) :
    c.isRecorded handle' = true ∨ handle = handle' ∧ a.isRecorded = true := by
  obtain ⟨r, member, here⟩ := List.any_eq_true.mp met
  unfold enter at member
  split at member
  · obtain ⟨old, listed, rfl⟩ := List.mem_map.mp member
    refine Or.inl (List.any_eq_true.mpr ⟨old, listed, ?_⟩)
    split at here <;> exact here
  · split at member
    · rename_i said
      rcases List.mem_append.mp member with old | new
      · exact Or.inl (List.any_eq_true.mpr ⟨r, old, here⟩)
      · rw [List.mem_singleton.mp new] at here
        exact Or.inr ⟨of_decide_eq_true here, said⟩
    · exact Or.inl (List.any_eq_true.mpr ⟨r, member, here⟩)

theorem mem_kept_enter {recorded : Bool} {e : Text} :
    e ∈ (c.enter m handle owner a).kept recorded ↔
      e ∈ c.kept recorded ∨ (c.isRecorded handle || a.isRecorded) = recorded ∧ e ∈ a.emits := by
  unfold enter
  cases known : c.isRecorded handle with
  | true =>
    cases recorded with
    | false => simp [kept]
    | true =>
      obtain ⟨own, listed, here⟩ := List.any_eq_true.mp known
      simp only [kept, if_pos, Bool.true_or, true_and, List.mem_flatMap, List.mem_map]
      constructor
      · rintro ⟨_, ⟨r, member, rfl⟩, emitted⟩
        split at emitted
        · exact (mem_appendAllNew.mp emitted).imp_left fun old => ⟨r, member, old⟩
        · exact Or.inl ⟨r, member, emitted⟩
      · rintro (⟨r, member, old⟩ | new)
        · refine ⟨_, ⟨r, member, rfl⟩, ?_⟩
          split
          · exact mem_appendAllNew.mpr (Or.inl old)
          · exact old
        · refine ⟨_, ⟨own, listed, rfl⟩, ?_⟩
          rw [if_pos (by simpa using here)]
          exact mem_appendAllNew.mpr (Or.inr new)
  | false =>
    cases said : a.isRecorded <;> cases recorded <;>
      simp [kept, Record.merge, Record.blank, mem_appendAllNew]

theorem emits_entry_of_stopped (stopped : m.hasCompositeSite = true) :
    (c.entry m handle).emits = [] := by
  rw [entry, if_pos stopped]
  rfl

theorem entry_of_passed (passed : m.hasCompositeSite = false) (nothing : c.heldFor handle = {}) :
    c.entry m handle = Annotations.ofMethod m := by
  have all : m.readable = m.decorators := by
    refine List.takeWhile_eq_self_iff.mpr fun d listed => ?_
    simpa using List.any_eq_false.mp passed d listed
  rw [entry, if_neg (by simp [passed]), reading, nothing, all]
  rfl

theorem isAnnotated_of_isRecorded_entry (rest : c.HoldsRest)
    (recorded : (c.entry m handle).isRecorded = true) : m.isAnnotated = true := by
  have same : (c.entry m handle).isRecorded = (c.reading m handle).isRecorded := by
    unfold entry
    split <;> rfl
  rw [same, reading, Annotations.isRecorded_addAll, rest.heldFor, Bool.false_or] at recorded
  obtain ⟨d, listed, recording⟩ := List.any_eq_true.mp recorded
  exact List.any_eq_true.mpr ⟨d, (List.takeWhile_sublist _).subset listed, recording⟩

/-- A visit that comes to its end keeps what the method emits, and one that is stopped keeps none
of it. -/
theorem mem_kept_visit (plain : owner.isComposite = false)
    (known : m.hasCompositeSite = false →
      c.heldFor handle = {} ∧ (c.isRecorded handle = true → m.isAnnotated = true))
    {recorded : Bool} {e : Text} :
    e ∈ (c.visit m handle owner).1.kept recorded ↔ e ∈ c.kept recorded ∨
      m.hasCompositeSite = false ∧ m.isAnnotated = recorded ∧ e ∈ m.emits := by
  have entered : (c.visit m handle owner).1.kept recorded =
      (c.enter m handle owner (c.entry m handle)).kept recorded := by
    rw [visit_of_plain plain]
    cases recorded <;> rfl
  rw [entered, mem_kept_enter]
  cases composite : m.hasCompositeSite with
  | true => simp [emits_entry_of_stopped composite]
  | false =>
    obtain ⟨nothing, annotated⟩ := known composite
    have emits : e ∈ (Annotations.ofMethod m).emits ↔ e ∈ m.emits := by
      rw [Annotations.ofMethod, Annotations.addAll_eq_ofSites]
      exact mem_distinct
    have same : (c.isRecorded handle || m.isAnnotated) = m.isAnnotated := by
      cases met : c.isRecorded handle with
      | true => rw [annotated met, Bool.or_self]
      | false => rw [Bool.false_or]
    rw [entry_of_passed composite nothing, Annotations.isRecorded_ofMethod, same, emits]
    simp

end Catalog

/-! ### The two places -/

namespace Survey

/-- What is known after visits of the methods `seen`, of which each came to its end or was
stopped. -/
structure Ledger (seen : List Method) (s : Survey) : Prop where
  rest : s.catalog.HoldsRest
  plain : ∀ r ∈ s.catalog.records, r.owner.isComposite = false
  recorded : ∀ handle, s.catalog.isRecorded handle = true →
    ∃ m ∈ seen, m.isAnnotated = true ∧ s.registry.HasHandle m.key handle
  held : ∀ entry ∈ s.catalog.held.entries,
    ∃ m ∈ seen, m.hasCompositeSite = true ∧ s.registry.HasHandle m.key entry.1
  kept : ∀ recorded e, e ∈ s.catalog.kept recorded ↔
    ∃ m ∈ seen, m.hasCompositeSite = false ∧ m.isAnnotated = recorded ∧ e ∈ m.emits

variable {s : Survey} {m : Method} {owner : Name} {seen ms : List Method} {v : Contract}

theorem ledger_start (registry : Registry) : Ledger [] { registry } := by
  refine ⟨nofun, nofun, nofun, nofun, fun recorded e => ?_⟩
  cases recorded <;> simp [Catalog.kept]

/-- What is known of a method was learnt from itself. -/
theorem Ledger.known (ledger : s.Ledger seen) (owner : Name)
    (tell : ∀ m' ∈ seen, m'.key = m.key → m' = m) (passed : m.hasCompositeSite = false) :
    s.catalog.heldFor (s.registry.add m owner).1 = {} ∧
      (s.catalog.isRecorded (s.registry.add m owner).1 = true → m.isAnnotated = true) := by
  have same {m' : Method} (listed : m' ∈ seen)
      (has : s.registry.HasHandle m'.key (s.registry.add m owner).1) : m' = m :=
    tell m' listed ((Registry.hasHandle_add has m owner).key_eq (s.registry.add_hasHandle m owner))
  constructor
  · refine Catalog.heldFor_eq_empty fun entry member here => ?_
    obtain ⟨m', listed, composite, has⟩ := ledger.held entry member
    rw [same listed (here ▸ has), passed] at composite
    cases composite
  · intro met
    obtain ⟨m', listed, annotated, has⟩ := ledger.recorded _ met
    exact same listed has ▸ annotated

theorem Ledger.visitMethod (ledger : s.Ledger seen) (plain : owner.isComposite = false)
    (tell : ∀ m' ∈ seen, m'.key = m.key → m' = m) :
    (s.visitMethod m owner).1.Ledger (seen ++ [m]) := by
  have own := s.registry.add_hasHandle m owner
  have entered := Catalog.visit_enters ledger.rest m (s.registry.add m owner).1 owner
  have before {m' : Method} (listed : m' ∈ seen) : m' ∈ seen ++ [m] := List.mem_append_left _ listed
  have last : m ∈ seen ++ [m] := List.mem_append_right _ (List.mem_singleton.mpr rfl)
  rw [visitMethod_eq]
  refine ⟨ledger.rest.visit m _ owner, ?_, ?_, ?_, ?_⟩
  · exact entered.forall (fun r r' same old => same.owner ▸ old)
      (fun r starts => starts.owner ▸ plain) ledger.plain
  · intro handle met
    rw [Catalog.visit_of_plain plain] at met
    rcases Catalog.isRecorded_enter met with old | ⟨rfl, said⟩
    · obtain ⟨m', listed, annotated, has⟩ := ledger.recorded handle old
      exact ⟨m', before listed, annotated, Registry.hasHandle_add has m owner⟩
    · exact ⟨m, last, Catalog.isAnnotated_of_isRecorded_entry ledger.rest said, own⟩
  · intro entry member
    rcases Catalog.visit_held member with old | ⟨here, -, composite⟩
    · obtain ⟨m', listed, composite, has⟩ := ledger.held entry old
      exact ⟨m', before listed, composite, Registry.hasHandle_add has m owner⟩
    · exact ⟨m, last, composite.resolve_left (by simp [plain]), here ▸ own⟩
  · -- Nothing but the visit of the method itself adds to the two places.
    intro recorded e
    rw [Catalog.mem_kept_visit plain (ledger.known owner tell), ledger.kept]
    simp only [List.mem_append, List.mem_singleton, or_and_right, exists_or, exists_eq_left]

theorem Ledger.visitMethods (ledger : s.Ledger seen) (plain : owner.isComposite = false)
    (tell : KeysTell (seen ++ ms)) : (s.visitMethods owner ms).1.Ledger (seen ++ reached ms) := by
  induction ms generalizing s seen with
  | nil => rwa [reached, List.append_nil]
  | cons m ms ih =>
    have visited : (s.visitMethod m owner).1.Ledger (seen ++ [m]) :=
      ledger.visitMethod plain fun m' listed => tell m' (List.mem_append_left _ listed) m
        (List.mem_append_right _ List.mem_cons_self)
    rw [visitMethods_cons_of_plain plain, reached]
    split
    · exact visited
    · have rest := ih visited (by rwa [List.append_assoc])
      rwa [List.append_assoc] at rest

/-- Classes and events have no part in it. -/
theorem Ledger.aside (ledger : s.Ledger seen) (classes : Table Json Visit) (events : List Event) :
    Ledger seen { s with catalog := { s.catalog with classes, events } } := by
  refine ⟨ledger.rest, ledger.plain, ledger.recorded, ledger.held, fun recorded e => ?_⟩
  rw [← ledger.kept]
  cases recorded <;> rfl

theorem visitMethods_events (plain : owner.isComposite = false) :
    (s.visitMethods owner ms).1.catalog.events = s.catalog.events := by
  refine visitMethods_preserves (P := fun next => next.catalog.events = s.catalog.events)
    (fun m _ next same => ?_) rfl
  rw [visitMethod_eq, Catalog.visit_of_plain plain, ← same]
  exact Catalog.enter_events ..

/-- A visit of a class goes no further than its name or its event, or it goes on to the methods. -/
theorem visitClass_cases (s : Survey) (v : Contract) :
    (v.begun = [] ∧ v.announced = [] ∧ ∃ classes,
      (s.visitClass v.site v.declaration v.path).1 =
        { s with catalog := { s.catalog with classes } }) ∨
    (v.begun = reached v.declaration.methods ∧ v.name.isComposite = false ∧ ∃ classes,
      (s.visitClass v.site v.declaration v.path).1 =
        (visitMethods { s with catalog := { s.catalog with
          classes, events := s.catalog.events ++ v.announced } } v.name v.declaration.methods).1) := by
  unfold visitClass Contract.begun Contract.announced
  cases plain : v.name.isComposite with
  | true =>
    have composite : v.declaration.name.isComposite = true := plain
    exact Or.inl ⟨rfl, rfl, s.catalog.classes, by rw [if_pos composite]⟩
  | false =>
    rw [show v.declaration.name.isComposite = false from plain]
    cases v.declaration.event? v.path with
    | error fault => exact Or.inl ⟨rfl, rfl, _, rfl⟩
    | ok event => exact Or.inr ⟨rfl, rfl, _, rfl⟩

theorem visitClass_events (s : Survey) (v : Contract) :
    (s.visitClass v.site v.declaration v.path).1.catalog.events =
      s.catalog.events ++ v.announced := by
  rcases visitClass_cases s v with ⟨-, none, classes, ended⟩ | ⟨-, plain, classes, ended⟩
  · rw [ended, none, List.append_nil]
  · rw [ended, visitMethods_events plain]

theorem Ledger.visitClass (ledger : s.Ledger seen)
    (tell : KeysTell (seen ++ v.declaration.methods)) :
    (s.visitClass v.site v.declaration v.path).1.Ledger (seen ++ v.begun) := by
  rcases visitClass_cases s v with ⟨none, -, classes, ended⟩ | ⟨all, plain, classes, ended⟩
  · rw [ended, none, List.append_nil]
    exact ledger.aside classes _
  · rw [ended, all]
    exact (ledger.aside classes _).visitMethods plain tell

theorem Ledger.walkAll {vs : List Contract} (ledger : s.Ledger seen)
    (tell : KeysTell (seen ++ vs.flatMap (·.declaration.methods))) :
    (s.walkAll (vs.map Contract.walk)).Ledger (seen ++ vs.flatMap Contract.begun) := by
  induction vs generalizing s seen with
  | nil =>
    rw [List.flatMap_nil, List.append_nil]
    exact ledger
  | cons v vs ih =>
    rw [List.flatMap_cons, ← List.append_assoc] at tell ⊢
    have visited := ledger.visitClass (tell.subset (List.subset_append_left ..))
    refine ih visited (tell.subset (List.append_subset.mpr ⟨?_, List.subset_append_right ..⟩))
    refine List.subset_append_of_subset_left _ (List.append_subset.mpr ⟨?_, ?_⟩)
    · exact List.subset_append_left ..
    · exact List.subset_append_of_subset_right _ v.begun_subset

theorem walkAll_events (s : Survey) (vs : List Contract) :
    (s.walkAll (vs.map Contract.walk)).catalog.events =
      s.catalog.events ++ vs.flatMap Contract.announced := by
  induction vs generalizing s with
  | nil => simp [walkAll]
  | cons v vs ih =>
    have visited := ih (s.visitClass v.site v.declaration v.path).1
    rwa [visitClass_events, List.append_assoc, ← List.flatMap_cons] at visited

section After

variable (registry : Registry) {vs : List Contract}

theorem after_ledger (tell : KeysTell (vs.flatMap (·.declaration.methods))) :
    (after registry (vs.map Contract.walk)).Ledger (vs.flatMap Contract.begun) :=
  (ledger_start registry).walkAll tell

theorem after_events (vs : List Contract) :
    (after registry (vs.map Contract.walk)).catalog.events = vs.flatMap Contract.announced :=
  walkAll_events _ vs

/-- Both places together have what the methods emit that were visited to the end. -/
theorem after_kept (tell : KeysTell (vs.flatMap (·.declaration.methods))) {recorded : Bool}
    {e : Text} : e ∈ (after registry (vs.map Contract.walk)).catalog.kept recorded ↔
      ∃ m ∈ vs.flatMap Contract.visited, m.isAnnotated = recorded ∧ e ∈ m.emits := by
  rw [(after_ledger registry tell).kept, Contract.flatMap_visited]
  simp only [List.mem_filter, Bool.not_eq_true', and_assoc]

end After

end Survey

/-! ### What is reported -/

namespace Catalog

variable {c : Catalog}

theorem mem_emitted (plain : ∀ r ∈ c.records, r.owner.isComposite = false) {e : Text} :
    e ∈ c.emitted ↔ ∃ recorded, e ∈ c.kept recorded := by
  have ordered (r : Record) : r ∈ c.ordered ↔ r ∈ c.records :=
    ⟨mem_records_of_mem_ordered, mem_ordered_of_plain plain⟩
  simp [emitted, kept, ordered, Bool.exists_bool]

theorem isDeclared_eq_false {x : Text} :
    c.isDeclared x = false ↔ ∀ d ∈ c.events, d.name ≠ .str x := by
  simp [isDeclared, Json.isText]

theorem filter_eventFindings (c : Catalog) :
    c.eventFindings.filter (fun f : Finding => f.code = "W001") =
      (c.events.filter (!c.isEmitted ·.name)).map fun e =>
        Finding.unusedEvent e.name e.owner e.path := by
  unfold eventFindings
  rw [List.filter_append, List.filter_eq_nil_iff.mpr, List.nil_append, List.filter_eq_self.mpr]
  · intro f member
    obtain ⟨e, -, rfl⟩ := List.mem_map.mp member
    rfl
  · intro f member
    obtain ⟨r, -, listed⟩ := List.mem_flatMap.mp member
    obtain ⟨e, -, rfl⟩ := List.mem_map.mp listed
    simp [Finding.code]

theorem undeclaredEvent_mem_eventFindings {e owner method : Name} :
    .undeclaredEvent e owner method ∈ c.eventFindings ↔
      ∃ r ∈ c.ordered, ∃ x ∈ r.emits, c.isDeclared x = false ∧
        e = .str x ∧ owner = r.owner ∧ method = r.name := by
  constructor
  · intro member
    rcases List.mem_append.mp member with undeclared | unused
    · obtain ⟨r, listed, reported⟩ := List.mem_flatMap.mp undeclared
      obtain ⟨x, emitted, same⟩ := List.mem_map.mp reported
      obtain ⟨own, missing⟩ := List.mem_filter.mp emitted
      cases same
      exact ⟨r, listed, x, own, by simpa using missing, rfl, rfl, rfl⟩
    · obtain ⟨d, -, same⟩ := List.mem_map.mp unused
      cases same
  · rintro ⟨r, listed, x, own, missing, rfl, rfl, rfl⟩
    refine List.mem_append_left _ (List.mem_flatMap.mpr ⟨r, listed, ?_⟩)
    exact List.mem_map_of_mem (List.mem_filter.mpr ⟨own, by simp [missing]⟩)

end Catalog

namespace Survey

theorem after_isEmitted (registry : Registry) {vs : List Contract}
    (tell : KeysTell (vs.flatMap (·.declaration.methods))) (event : Name) :
    (after registry (vs.map Contract.walk)).catalog.isEmitted event = true ↔
      ∃ m ∈ vs.flatMap Contract.visited, ∃ x ∈ m.emits, event = .str x := by
  have plain := (after_ledger registry tell).plain
  unfold Catalog.isEmitted
  rw [List.any_eq_true]
  constructor
  · rintro ⟨x, emitted, same⟩
    obtain ⟨recorded, kept⟩ := (Catalog.mem_emitted plain).mp emitted
    obtain ⟨m, listed, -, own⟩ := (after_kept registry tell).mp kept
    exact ⟨m, listed, x, own, of_decide_eq_true same⟩
  · rintro ⟨m, listed, x, own, rfl⟩
    have kept := (after_kept registry tell).mpr ⟨m, listed, rfl, own⟩
    exact ⟨x, (Catalog.mem_emitted plain).mpr ⟨_, kept⟩, decide_eq_true rfl⟩

/-- Whatever classes have been visited, the events that are reported as unused are those, in the order
in which they were entered, that no method emits whose visit came to its end. -/
theorem unused_reported (registry : Registry) (vs : List Contract)
    (tell : KeysTell (vs.flatMap (·.declaration.methods))) :
    let c := (after registry (vs.map Contract.walk)).catalog
    c.events = vs.flatMap Contract.announced ∧
      c.eventFindings.filter (fun f : Finding => f.code = "W001") =
        (c.events.filter fun d => ∀ m ∈ vs.flatMap Contract.visited, ∀ x ∈ m.emits,
          d.name ≠ .str x).map fun d => .unusedEvent d.name d.owner d.path := by
  intro c
  refine ⟨after_events registry vs, ?_⟩
  rw [Catalog.filter_eventFindings]
  refine congrArg (List.map _) (List.filter_congr fun d _ => ?_)
  have emitted := after_isEmitted registry tell d.name
  rw [Bool.eq_iff_iff, Bool.not_eq_true', ← Bool.not_eq_true, emitted, decide_eq_true_iff]
  push Not
  rfl

def counting : Method where
  key := 1
  name := .str "count"
  decorators := [⟨.str "emit", ["'Counted'", "'Burnt'"]⟩]

def minting : Method where
  key := 2
  name := .str "mint"
  decorators := [⟨.str "emit", ["'Minted'"]⟩, ⟨.arr [], []⟩]

/-- The first event is emitted by a method with a record and the second, declared last, by one
without. The third is emitted by a method whose visit does not come to its end. -/
def market : List Contract := [
  { site := ⟨0, 0⟩
    path := .str "market.ts"
    declaration := { name := .str "Sold", decorators := [⟨.str "event", []⟩], base := .null
                     members := [] } },
  { site := ⟨0, 1⟩
    path := .str "market.ts"
    declaration := { name := .str "Stall", decorators := [], base := .null, members := [
      .method { key := 0, name := .str "sell", decorators := [
        ⟨.str "emit", ["'Sold'", "'Lost'"]⟩, ⟨.str "method", []⟩] },
      .method counting] } },
  { site := ⟨0, 2⟩
    path := .str "market.ts"
    declaration := { name := .str "Count", decorators := [⟨.str "event", ["'Counted'"]⟩]
                     base := .null, members := [] } },
  minted,
  { site := ⟨0, 3⟩
    path := .str "market.ts"
    declaration := { name := .str "Mint", decorators := [], base := .null
                     members := [.method minting] } }]

theorem keysTell_market : KeysTell (market.flatMap (·.declaration.methods)) := by
  unfold KeysTell
  decide +kernel

theorem unused_of_market :
    let c := (after {} (market.map Contract.walk)).catalog
    c.events.map (·.name) = [.str "Sold", .str "Counted", .str "Minted"] ∧
      c.eventFindings.filter (fun f : Finding => f.code = "W001") =
        [.unusedEvent (.str "Minted") (.str "Minted") (.str "")] := by
  obtain ⟨events, reported⟩ := unused_reported {} market keysTell_market
  intro c
  rw [reported, events]
  decide +kernel

/-- The visit is stopped after the event was read. -/
theorem minted_is_unused_though_emitted :
    minting ∈ market.flatMap (·.declaration.methods) ∧ minting.emits = [("Minted" : Text)] ∧
      .unusedEvent (.str "Minted") (.str "Minted") (.str "") ∈
        (after {} (market.map Contract.walk)).catalog.eventFindings := by
  decide +kernel

/-- Events that are not declared are reported if a method emits them whose visit came to its end and
which has a record. -/
theorem undeclared_reported_iff (registry : Registry) (vs : List Contract)
    (tell : KeysTell (vs.flatMap (·.declaration.methods))) (e : Name) :
    let c := (after registry (vs.map Contract.walk)).catalog
    (∃ owner method, .undeclaredEvent e owner method ∈ c.eventFindings) ↔
      (∃ m ∈ vs.flatMap Contract.visited, m.isAnnotated = true ∧ ∃ x ∈ m.emits, e = .str x) ∧
        ∀ d ∈ vs.flatMap Contract.announced, d.name ≠ e := by
  intro c
  rw [← after_events registry vs]
  constructor
  · rintro ⟨owner, method, reported⟩
    obtain ⟨r, listed, x, own, undeclared, rfl, -, -⟩ :=
      Catalog.undeclaredEvent_mem_eventFindings.mp reported
    have kept : x ∈ c.kept true :=
      List.mem_flatMap.mpr ⟨r, Catalog.mem_records_of_mem_ordered listed, own⟩
    obtain ⟨m, visited, annotated, emits⟩ := (after_kept registry tell).mp kept
    exact ⟨⟨m, visited, annotated, x, emits, rfl⟩, Catalog.isDeclared_eq_false.mp undeclared⟩
  · rintro ⟨⟨m, visited, annotated, x, emits, rfl⟩, undeclared⟩
    have kept : x ∈ c.kept true := (after_kept registry tell).mpr ⟨m, visited, annotated, emits⟩
    obtain ⟨r, member, own⟩ := List.mem_flatMap.mp kept
    have listed := Catalog.mem_ordered_of_plain (after_ledger registry tell).plain member
    exact ⟨r.owner, r.name, Catalog.undeclaredEvent_mem_eventFindings.mpr
      ⟨r, listed, x, own, Catalog.isDeclared_eq_false.mpr undeclared, rfl, rfl, rfl⟩⟩

theorem undeclared_of_market :
    let c := (after {} (market.map Contract.walk)).catalog
    (∃ owner method, .undeclaredEvent (.str "Lost") owner method ∈ c.eventFindings) ∧
      ¬∃ owner method, .undeclaredEvent (.str "Sold") owner method ∈ c.eventFindings := by
  constructor
  · exact (undeclared_reported_iff {} market keysTell_market (.str "Lost")).mpr (by decide +kernel)
  · intro reported
    have undeclared := (undeclared_reported_iff {} market keysTell_market (.str "Sold")).mp reported
    revert undeclared
    decide +kernel

/-- The method has no record. -/
theorem burnt_is_emitted_and_not_reported :
    counting ∈ market.flatMap Contract.visited ∧ ("Burnt" : Text) ∈ counting.emits ∧
      (∀ d ∈ market.flatMap Contract.announced, d.name ≠ .str "Burnt") ∧
      (after {} (market.map Contract.walk)).catalog.eventFindings =
        [.undeclaredEvent (.str "Lost") (.str "Stall") (.str "sell"),
          .unusedEvent (.str "Minted") (.str "Minted") (.str "")] := by
  decide +kernel

end Survey

end ContractAbi
