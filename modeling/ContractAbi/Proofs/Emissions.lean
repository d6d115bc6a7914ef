import ContractAbi.Proofs.Agreement
import ContractAbi.Proofs.Inventory
import Mathlib.Data.List.Induction

/-!
# The unit and its classes

The manifest of a unit is built from the records as they stand, those of its classes group by group
and with their events looked up by name. `unit_lists_what_classes_list` shows that they agree.
-/

namespace ContractAbi

theorem pairwise_distinct_idxOf {α : Type} [DecidableEq α] (xs : List α) :
    (distinct xs).Pairwise fun a b => xs.idxOf a < xs.idxOf b := by
  induction xs using List.reverseRecOn with
  | nil => exact .nil
  | append_singleton xs x ih =>
    have grown : distinct (xs ++ [x]) = appendNew (distinct xs) x := by
      simp [distinct, appendAllNew, List.foldl_append]
    have before : (distinct xs).Pairwise fun a b => (xs ++ [x]).idxOf a < (xs ++ [x]).idxOf b := by
      refine ih.imp_of_mem fun {a b} first second earlier => ?_
      rwa [List.idxOf_append_of_mem (mem_distinct.mp first),
        List.idxOf_append_of_mem (mem_distinct.mp second)]
    rw [grown, appendNew]
    split
    · exact before
    · rename_i absent
      rw [mem_distinct] at absent
      refine List.pairwise_append.mpr ⟨before, List.pairwise_singleton _ _, ?_⟩
      intro a listed b last
      obtain rfl := List.mem_singleton.mp last
      have inside := mem_distinct.mp listed
      have below := List.idxOf_lt_length_of_mem inside
      rw [List.idxOf_append_of_mem inside, List.idxOf_append_of_notMem absent]
      omega

/-! ### Settled records -/

namespace Record

theorem function_settle (r : Record) : r.settle.function = r.function := by
  refine function_of_call ?_ r.resolveCall_settle
  rw [settle_eq]

end Record

namespace Catalog

/-- Building the unit first makes no difference to the manifests of the classes. -/
theorem classAbis_buildUnit (c : Catalog) : c.buildUnit.1.classAbis = c.classAbis := by
  let g (r : Record) : Record :=
    if r.handle ∈ (reached Record.failsToBuild c.ordered).map (·.handle) then r.settle else r
  have settled : c.buildUnit.1 = c.mapRecords g := rfl
  have owner (r : Record) : (g r).owner = r.owner := by
    unfold g
    split <;> simp
  have function (r : Record) : (g r).function = r.function := by
    unfold g
    split
    · exact r.function_settle
    · rfl
  have emits (r : Record) : (g r).emits = r.emits := by
    unfold g
    split
    · rw [Record.settle_eq]
    · rfl
  rw [settled, classAbis_mapRecords owner function emits]

end Catalog

/-! ### Events by name -/

theorem Json.key_eq_str {name : Name} {x : Text} : name.key = .str x ↔ name = .str x := by
  cases name with
  | bool b => cases b <;> simp [key]
  | real y => cases whole : y.whole? <;> simp [key, whole]
  | _ => simp [key]

/-- The events that a class lists, next to the manifest of the unit and the names that the methods of
the class emit. -/
structure Abi.ListsEmitted (unit : Abi) (emitted : List Text) (events : List EventEntry) : Prop where
  once : (events.map (·.name)).Nodup
  inOrder : events.Pairwise fun a b =>
    ∃ x y, a.name = .str x ∧ b.name = .str y ∧ emitted.idxOf x < emitted.idxOf y
  complete : ∀ e, e ∈ events ↔
    ∃ x ∈ emitted, unit.events.find? (·.name = .str x) = some e

namespace Catalog

/-- The first event of a name has the first entry of that name. -/
theorem find?_entry {events : List Event} {entries : List EventEntry}
    (made : List.Forall₂ (fun e entry => e.entry = .ok entry) events entries) (x : Text) :
    Option.Rel (fun e entry => e.entry = .ok entry) (events.find? (·.name.key = .str x))
      (entries.find? (·.name = .str x)) := by
  induction made with
  | nil => exact .none
  | @cons e entry events entries first rest ih =>
    have named := (Event.entry_ok first).1
    simp only [Json.key_eq_str] at ih ⊢
    rw [List.find?_cons, List.find?_cons, named]
    by_cases here : e.name = .str x
    · rw [decide_eq_true here]
      exact .some first
    · rw [decide_eq_false here]
      exact ih

theorem classAbi_events {c : Catalog} {unit abi : Abi} {records : List Record}
    (declared : c.events.mapM Event.entry = .ok unit.events) (built : c.classAbi records = .ok abi) :
    abi.events = (distinct (records.flatMap (·.emits))).filterMap fun x =>
      unit.events.find? (·.name = .str x) := by
  obtain ⟨functions, -, built⟩ := bind_ok built
  obtain ⟨events, made, built⟩ := bind_ok built
  cases built
  have found : List.Forall₂ (fun e entry => e.entry = .ok entry)
      ((distinct (records.flatMap (·.emits))).filterMap fun x => c.event? (.str x))
      ((distinct (records.flatMap (·.emits))).filterMap fun x =>
        unit.events.find? (·.name = .str x)) := by
    refine List.rel_filterMap (R := Eq) ?_ (List.forall₂_same.mpr fun _ _ => rfl)
    rintro x _ rfl
    exact find?_entry (mapM_eq_ok.mp declared) x
  exact Except.ok.inj (made.symm.trans (mapM_eq_ok.mpr found))

theorem listsEmitted_of_classAbi {c : Catalog} {unit abi : Abi} {records : List Record}
    (declared : c.events.mapM Event.entry = .ok unit.events) (built : c.classAbi records = .ok abi) :
    unit.ListsEmitted (records.flatMap (·.emits)) abi.events := by
  have named {x : Text} {e : EventEntry} (found : unit.events.find? (·.name = .str x) = some e) :
      e.name = .str x := by
    simpa using List.find?_some found
  have inOrder : abi.events.Pairwise fun a b => ∃ x y, a.name = .str x ∧ b.name = .str y ∧
      (records.flatMap (·.emits)).idxOf x < (records.flatMap (·.emits)).idxOf y := by
    rw [classAbi_events declared built, List.pairwise_filterMap]
    refine (pairwise_distinct_idxOf _).imp fun {x y} earlier a first b second => ?_
    exact ⟨x, y, named first, named second, earlier⟩
  refine ⟨?_, inOrder, fun e => ?_⟩
  · refine List.pairwise_map.mpr (inOrder.imp ?_)
    rintro a b ⟨x, y, first, second, earlier⟩ same
    rw [first, second, Json.str.injEq] at same
    rw [same] at earlier
    exact Nat.lt_irrefl _ earlier
  · rw [classAbi_events declared built, List.mem_filterMap]
    simp only [mem_distinct]

end Catalog

/-! ### Agreement -/

namespace Catalog

theorem unitAbi_functions {c : Catalog} {unit : Abi} {classes : List (Name × Abi)}
    (built : c.unitAbi = .ok unit) (grouped : c.classAbis = .ok classes) :
    unit.functions = classes.flatMap (·.2.functions) := by
  obtain ⟨functions, made, built⟩ := bind_ok built
  obtain ⟨events, -, built⟩ := bind_ok built
  cases built
  have each : List.Forall₂ (fun r f => r.function = .ok f) c.ordered
      (classes.flatMap (·.2.functions)) := by
    unfold ordered
    refine List.rel_flatMap (mapM_eq_ok.mp grouped) fun group entry listed => ?_
    obtain ⟨abi, built, same⟩ := bind_ok listed
    cases same
    obtain ⟨own, made, built⟩ := bind_ok built
    obtain ⟨events, -, built⟩ := bind_ok built
    cases built
    exact mapM_eq_ok.mp made
  exact Except.ok.inj (made.symm.trans (mapM_eq_ok.mpr each))

/-- Whatever records and events there are, if the manifest of the unit can be built then so can those
of the classes, before or after it. Its functions are theirs one class after another, and the events
of a class are the unit's first entries under the names that the class emits, in the order in which it
first emits them. -/
theorem unit_lists_what_classes_list (c : Catalog) {unit : Abi} (built : c.buildUnit.2 = .ok unit) :
    ∃ classes, c.buildClasses.2 = .ok classes ∧ c.buildUnit.1.buildClasses.2 = .ok classes ∧
      classes.map (·.1) = c.owners ∧ unit.functions = classes.flatMap (·.2.functions) ∧
      ∀ entry ∈ classes,
        unit.ListsEmitted ((c.recordsOf entry.1).flatMap (·.emits)) entry.2.events := by
  have unitBuilt : c.unitAbi = .ok unit := built
  obtain ⟨classes, grouped⟩ := failure?_eq_none.mp
    (failure?_classAbis (failure?_eq_none.mpr ⟨unit, unitBuilt⟩))
  have declared : c.events.mapM Event.entry = .ok unit.events := by
    obtain ⟨functions, -, made⟩ := bind_ok unitBuilt
    obtain ⟨events, listed, made⟩ := bind_ok made
    cases made
    exact listed
  refine ⟨classes, grouped, (classAbis_buildUnit c).trans grouped, classAbis_names grouped,
    unitAbi_functions unitBuilt grouped, ?_⟩
  intro entry member
  obtain ⟨owner, -, same, own⟩ := exists_of_forall₂ (classAbis_eq_ok grouped) member
  rw [same]
  exact listsEmitted_of_classAbi declared own

/-- Two classes whose records alternate. They emit an event twice, one that is not declared and one
that is declared twice. -/
def harbour : Catalog where
  records := [
    { handle := 0, owner := .str "Pier", declared := .str "leave", name := .str "leave"
      emits := ["Left", "Sunk"] },
    { handle := 1, owner := .str "Crane", declared := .str "lift", name := .str "lift"
      emits := ["Moved"] },
    { handle := 2, owner := .str "Pier", declared := .str "move", name := .str "move"
      params := [.bare "u8"], emits := ["Moved", "Left"] }]
  events := [
    { name := .str "Moved", owner := .str "Moved", path := .str "a.ts"
      fields := [(.str "berth", "u8")] },
    { name := .str "Moved", owner := .str "Shifted", path := .str "b.ts", fields := [] },
    { name := .str "Left", owner := .str "Left", path := .str "b.ts", fields := [] }]

theorem unit_of_harbour : ∃ unit classes, harbour.buildUnit.2 = .ok unit ∧
    harbour.buildClasses.2 = .ok classes ∧ unit.functions = classes.flatMap (·.2.functions) ∧
    classes.map (fun entry => (entry.1, entry.2.events)) =
      [(.str "Pier", [⟨.str "Left", []⟩, ⟨.str "Moved", [⟨.str "berth", .uint8⟩]⟩]),
        (.str "Crane", [⟨.str "Moved", [⟨.str "berth", .uint8⟩]⟩])] := by
  obtain ⟨unit, built⟩ : ∃ unit, harbour.buildUnit.2 = .ok unit :=
    failure?_eq_none.mp (by decide +kernel)
  obtain ⟨classes, grouped, -, -, functions, -⟩ := unit_lists_what_classes_list harbour built
  have events : harbour.buildClasses.2.map (List.map fun entry => (entry.1, entry.2.events)) = .ok
      [(.str "Pier", [⟨.str "Left", []⟩, ⟨.str "Moved", [⟨.str "berth", .uint8⟩]⟩]),
        (.str "Crane", [⟨.str "Moved", [⟨.str "berth", .uint8⟩]⟩])] := by decide +kernel
  rw [grouped] at events
  exact ⟨unit, classes, built, grouped, functions, Except.ok.inj events⟩

end Catalog

end ContractAbi
