import ContractAbi.Proofs.Outcome
import ContractAbi.Proofs.Visiting

/-!
# What the manifest of a unit lists

Every annotated method outside the standard library has one function in the manifest, and every class
that carries `@event` has one event, unless neither the annotation nor the class gives it a name.
-/

namespace ContractAbi

/-! ### Grouping -/

section Grouping

variable {α β κ : Type} [DecidableEq κ]

/-- The elements kind by kind, the kinds in the order of their first elements. -/
def groupedBy (kind : α → κ) (xs : List α) : List α :=
  (distinct (xs.map kind)).flatMap fun k => xs.filter (kind · = k)

/-- Grouping loses nothing and repeats nothing. -/
theorem groupedBy_perm (kind : α → κ) (xs : List α) : (groupedBy kind xs).Perm xs := by
  have general (ks : List κ) (nodup : ks.Nodup) (xs : List α) (known : ∀ x ∈ xs, kind x ∈ ks) :
      (ks.flatMap fun k => xs.filter (kind · = k)).Perm xs := by
    induction ks generalizing xs with
    | nil =>
      have none : xs = [] := List.eq_nil_iff_forall_not_mem.mpr fun x member => by
        simpa using known x member
      rw [none]
      exact .refl _
    | cons k ks ih =>
      obtain ⟨absent, nodup⟩ := List.nodup_cons.mp nodup
      let others := xs.filter fun x => !decide (kind x = k)
      have rest : (ks.flatMap fun k => others.filter (kind · = k)).Perm others := by
        refine ih nodup others fun x member => ?_
        obtain ⟨listed, other⟩ := List.mem_filter.mp member
        exact (List.mem_cons.mp (known x listed)).resolve_left (by simpa using other)
      have same : (ks.flatMap fun k => xs.filter (kind · = k)) =
          ks.flatMap fun k => others.filter (kind · = k) := by
        refine List.flatMap_congr fun k' listed => ?_
        rw [List.filter_filter]
        refine List.filter_congr fun x _ => ?_
        by_cases here : kind x = k'
        · have different : k' ≠ k := fun equal => absent (equal ▸ listed)
          simp [here, different]
        · simp [here]
      rw [List.flatMap_cons, same]
      exact (rest.append_left _).trans (List.filter_append_perm _ xs)
  refine general _ (nodup_distinct _) xs fun x member => ?_
  exact mem_distinct.mpr (List.mem_map_of_mem member)

theorem groupedBy_related {R : α → β → Prop} {f : α → κ} {g : β → κ}
    (kinds : ∀ x y, R x y → f x = g y) {xs : List α} {ys : List β} (related : List.Forall₂ R xs ys) :
    List.Forall₂ R (groupedBy f xs) (groupedBy g ys) := by
  have same : xs.map f = ys.map g := by
    rw [← List.forall₂_eq_eq_eq, List.forall₂_map_left_iff, List.forall₂_map_right_iff]
    exact related.imp kinds
  unfold groupedBy
  rw [same]
  refine List.rel_flatMap (R := Eq) (List.forall₂_same.mpr fun _ _ => rfl) ?_
  rintro k _ rfl
  refine List.rel_filter ?_ related
  intro x y paired
  simp [kinds x y paired]

end Grouping

namespace Catalog

theorem owners_keys {c : Catalog} (plain : ∀ r ∈ c.records, r.owner.isComposite = false) :
    c.owners.map Json.key = distinct (c.records.map (·.owner.key)) := by
  have all : (c.records.map (·.owner)).filter (!·.isComposite) = c.records.map (·.owner) := by
    rw [List.filter_eq_self]
    intro owner listed
    obtain ⟨r, member, rfl⟩ := List.mem_map.mp listed
    rw [plain r member]
    rfl
  unfold owners
  rw [all, map_firstOfEach, List.map_map]
  rfl

theorem nodup_owner_keys (c : Catalog) : (c.owners.map Json.key).Nodup := by
  unfold owners
  rw [map_firstOfEach]
  exact nodup_distinct _

theorem nodup_owners (c : Catalog) : c.owners.Nodup :=
  List.Pairwise.of_map Json.key (fun _ _ different same => different (congrArg Json.key same))
    c.nodup_owner_keys

theorem ordered_eq_groupedBy {c : Catalog}
    (plain : ∀ r ∈ c.records, r.owner.isComposite = false) :
    c.ordered = groupedBy (·.owner.key) c.records := by
  unfold ordered byClass groupedBy
  rw [← owners_keys plain, List.flatMap_map, List.flatMap_map]
  rfl

theorem mem_ordered_of_plain {c : Catalog} (plain : ∀ r ∈ c.records, r.owner.isComposite = false)
    {r : Record} (member : r ∈ c.records) : r ∈ c.ordered := by
  rw [ordered_eq_groupedBy plain]
  exact (groupedBy_perm _ _).mem_iff.mpr member

end Catalog

/-! ### Functions -/

theorem Record.IsSettled.resolveCall_eq_unsettled {r s : Record} (settled : s.IsSettled)
    (unsettled : r.call = none) (name : s.name = r.name) (params : s.params = r.params) :
    s.resolveCall = r.resolveCall := by
  obtain ⟨types, call, typed, stored, made⟩ := settled
  have same : r.HasTypes types := by
    unfold HasTypes
    rw [← params]
    exact typed
  rw [resolveCall, stored, resolveCall, unsettled, ← name]
  simp only [hasTypes_iff.mp same, made, bind, Except.bind]
  rfl

/-- The record is that of the method, apart from what was looked up and computed since. -/
def Record.Describes (p : Name × Method) (r : Record) : Prop :=
  r = { ofMethod p.1 p.2 r.handle with call := r.call, internalName := r.internalName }

theorem Record.Describes.owner_eq {p : Name × Method} {r : Record} (describes : r.Describes p) :
    r.owner = p.1 := by
  rw [describes]
  rfl

theorem Record.Describes.resolveCall_eq {p : Name × Method} {r : Record} (describes : r.Describes p)
    (settled : r.IsSettled) : r.resolveCall = (ofMethod p.1 p.2 0).resolveCall := by
  refine settled.resolveCall_eq_unsettled rfl ?_ ?_
  all_goals
    rw [describes]
    rfl

/-- The function of a settled record is what the annotations of its method say. -/
theorem Record.Describes.function_eq {p : Name × Method} {r : Record} (describes : r.Describes p)
    (settled : r.IsSettled) : r.function = (ofMethod p.1 p.2 0).function :=
  function_of_call describes (describes.resolveCall_eq settled)

namespace Transformer

variable {t : Transformer} {code : Codebase} {program : Option Program} {output : Output}
  {files : Table Text Text}

theorem surveyed_of_run_ok (h : (t.run code program).2.2 = .ok (output, files)) :
    code.surveyed.2 = .ok () := by
  obtain ⟨⟨c, surveyed, -⟩, -⟩ := run_ok h
  exact (Codebase.survey_eq_ok surveyed).1

/-- The records are those of the annotated methods, each under the handle that its method has got. -/
theorem run_registered (fresh : code.IsFresh) (h : (t.run code program).2.2 = .ok (output, files)) :
    List.Forall₂ (fun p r => Record.Describes p r ∧
      code.surveyed.1.registry.HasHandle p.2.key r.handle) code.annotated output.catalog.records := by
  obtain ⟨g, same, kept⟩ := run_records h
  have records := code.records_of_isFresh fresh (surveyed_of_run_ok h)
  rw [same]
  refine List.forall₂_map_right_iff.mpr (records.imp fun p r own => ?_)
  obtain ⟨call, name, changed⟩ := kept r
  unfold Record.Describes
  rw [changed]
  refine ⟨?_, own.2⟩
  rw [own.1]
  rfl

theorem run_describes (fresh : code.IsFresh) (h : (t.run code program).2.2 = .ok (output, files)) :
    List.Forall₂ (fun p r => Record.Describes p r) code.annotated output.catalog.records :=
  (run_registered fresh h).imp fun _ _ own => own.1

theorem run_plain (fresh : code.IsFresh) (h : (t.run code program).2.2 = .ok (output, files)) :
    ∀ r ∈ output.catalog.records, r.owner.isComposite = false := by
  intro r member
  obtain ⟨p, listed, own⟩ := exists_of_forall₂ (run_describes fresh h) member
  obtain ⟨v, visited, inside⟩ := List.mem_flatMap.mp listed
  rw [own.owner_eq, Contract.owner_of_mem_annotated inside]
  exact (code.surveyed_sees (surveyed_of_run_ok h)).names v visited

theorem run_settled (fresh : code.IsFresh) (h : (t.run code program).2.2 = .ok (output, files)) :
    ∀ r ∈ output.catalog.records, r.IsSettled := by
  obtain ⟨-, -, settled, -⟩ := run_ok h
  exact fun r member => settled r (Catalog.mem_ordered_of_plain (run_plain fresh h) member)

theorem run_ordered (fresh : code.IsFresh) (h : (t.run code program).2.2 = .ok (output, files)) :
    List.Forall₂ (fun p r => Record.Describes p r) (groupedBy (·.1.key) code.annotated)
      output.catalog.ordered := by
  rw [Catalog.ordered_eq_groupedBy (run_plain fresh h)]
  refine groupedBy_related ?_ (run_describes fresh h)
  exact fun p r own => congrArg Json.key own.owner_eq.symm

/-- The functions of the manifest are those of the annotated methods, class by class. -/
theorem run_functions (fresh : code.IsFresh)
    (h : (t.run code program).2.2 = .ok (output, files)) :
    List.Forall₂ (fun p f => f.declared = p.2.name ∧ (Record.ofMethod p.1 p.2 0).function = .ok f)
      (groupedBy (·.1.key) code.annotated) output.unitAbi.functions := by
  obtain ⟨c, s, stages⟩ := run_stages h
  obtain ⟨-, unit, -, settled⟩ := Catalog.build_ok stages.unsettled stages.built
  obtain ⟨functions, made, unit⟩ := bind_ok unit
  obtain ⟨events, -, unit⟩ := bind_ok unit
  have each := (List.forall₂_and_left _ _).mpr ⟨settled, mapM_eq_ok.mp made⟩
  rw [← Except.ok.inj unit]
  refine forall₂_comp ?_ (run_ordered fresh h) each
  rintro p r f describes ⟨isSettled, entry⟩
  rw [← describes.function_eq isSettled]
  refine ⟨?_, entry⟩
  rw [(Record.function_ok entry).2.1, describes]
  rfl

end Transformer

/-! ### Events -/

/-- Whether a type is given. -/
def Field.isTyped (f : Field) : Bool :=
  f.type.text?.any fun type : Text => type ≠ ""

namespace Class

theorem eventFields_ok {fs : List Field} {fields : List (Name × Text)}
    (h : eventFields fs = .ok fields) :
    List.Forall₂ (fun f p => p.1 = f.name ∧ ∃ text, f.type = .str text ∧ p.2 = Text.trim text)
      (fs.filter Field.isTyped) fields := by
  induction fs generalizing fields with
  | nil =>
    cases h
    exact .nil
  | cons f fs ih =>
    obtain ⟨type, typed, h⟩ := bind_ok h
    obtain ⟨rest, others, h⟩ := bind_ok h
    cases h
    unfold eventType? at typed
    split at typed
    · rename_i truthy
      split at typed
      · rename_i text given
        cases typed
        have nonempty : f.isTyped = true := by
          simpa [Field.isTyped, given, Json.text?, Json.isTruthy] using truthy
        rw [List.filter_cons_of_pos nonempty]
        exact .cons ⟨rfl, text, given, rfl⟩ (ih others)
      · cases typed
    · rename_i falsy
      cases typed
      have untyped : ¬f.isTyped = true := by
        intro typed
        unfold Field.isTyped at typed
        cases given : f.type <;> simp_all [Json.text?, Json.isTruthy]
      rw [List.filter_cons_of_neg untyped]
      exact ih others

end Class

theorem Event.entry_ok {e : Event} {entry : EventEntry} (h : e.entry = .ok entry) :
    entry.name = e.name ∧
      List.Forall₂ (fun p v => v.name = p.1 ∧ AbiType.resolve? p.2 = some v.type) e.fields
        entry.values := by
  obtain ⟨values, made, h⟩ := bind_ok h
  cases h
  refine ⟨rfl, (mapM_eq_ok.mp made).imp fun p v resolved => ?_⟩
  obtain ⟨type, found, same⟩ := bind_ok resolved
  cases same
  exact ⟨rfl, resolveType_eq_ok.mp found⟩

namespace Class

def isEvent (c : Class) : Bool :=
  c.decorators.any (·.name.isText "event")

def lastEvent? (c : Class) : Option Decorator :=
  (c.decorators.filter (·.name.isText "event")).getLast?

/-- Whether the class would give its name to an event and has none. -/
def isNameless (c : Class) : Bool :=
  c.name = .null && c.lastEvent?.any (·.args.isEmpty)

/-- The entry has the name that the last `@event` of the class gives, or else that of the class, and a
value for each field that has a type. -/
structure Announces (c : Class) (e : EventEntry) : Prop where
  name : ∃ last, c.lastEvent? = some last ∧ e.name = (last.unquoted.head?.map Json.str).getD c.name
  values : List.Forall₂ (fun f v => v.name = f.name ∧
    ∃ text, f.type = .str text ∧ AbiType.resolve? (Text.trim text) = some v.type)
    (c.fields.filter Field.isTyped) e.values

theorem eventName?_eq (c : Class) :
    c.eventName? = if c.isNameless then none else
      c.lastEvent?.map fun last => (last.unquoted.head?.map Json.str).getD c.name := by
  unfold eventName? isNameless lastEvent?
  cases (c.decorators.filter (·.name.isText "event")).getLast? with
  | none => simp
  | some last =>
    obtain ⟨name, args⟩ := last
    cases args with
    | nil => by_cases null : c.name = .null <;> simp [Decorator.unquoted, null]
    | cons first rest => simp [Decorator.unquoted]

theorem isSome_eventName? (c : Class) : c.eventName?.isSome = (c.isEvent && !c.isNameless) := by
  have last : c.lastEvent?.isSome = c.isEvent := by
    unfold lastEvent? isEvent
    rw [Bool.eq_iff_iff, List.getLast?_isSome, List.any_eq_true]
    simp [List.filter_eq_nil_iff]
  rw [eventName?_eq]
  cases c.isNameless <;> simp [last]

theorem announces_of_event? {c : Class} {path : Json} {e : Event} {entry : EventEntry}
    (declared : c.event? path = .ok (some e)) (made : e.entry = .ok entry) : c.Announces entry := by
  obtain ⟨name, values⟩ := Event.entry_ok made
  unfold event? at declared
  split at declared
  · cases declared
  · rename_i given named
    obtain ⟨fields, read, same⟩ := bind_ok declared
    cases same
    rw [eventName?_eq] at named
    split at named
    · cases named
    · obtain ⟨last, found, same⟩ := Option.map_eq_some_iff.mp named
      refine ⟨⟨last, found, name.trans same.symm⟩, forall₂_comp ?_ (eventFields_ok read) values⟩
      rintro f p v ⟨field, text, type, trimmed⟩ ⟨name, resolved⟩
      exact ⟨name.trans field, text, type, trimmed ▸ resolved⟩

end Class

namespace Transformer

variable {t : Transformer} {code : Codebase} {program : Option Program} {output : Output}
  {files : Table Text Text}

theorem run_events (h : (t.run code program).2.2 = .ok (output, files)) :
    List.Forall₂ (fun v e => v.declaration.Announces e)
      (code.contracts.filter fun v => v.declaration.isEvent && !v.declaration.isNameless)
      output.unitAbi.events := by
  obtain ⟨c, s, stages⟩ := run_stages h
  obtain ⟨-, unit, -, -⟩ := Catalog.build_ok stages.unsettled stages.built
  obtain ⟨functions, -, unit⟩ := bind_ok unit
  obtain ⟨events, made, unit⟩ := bind_ok unit
  obtain ⟨g, same, -⟩ := run_records h
  have declared := (code.surveyed_sees (surveyed_of_run_ok h)).events
  simp only [Class.isSome_eventName?] at declared
  rw [same] at made
  rw [← Except.ok.inj unit]
  refine forall₂_comp ?_ declared (mapM_eq_ok.mp made)
  exact fun event entry => Class.announces_of_event? event entry

/-- In fresh code, the functions of the manifest are those of the annotated methods outside the
standard library, grouped by class and in the order of the visits, and its events are those of the
classes that carry `@event`, in the same order. Only a class that has no name to give to its event is
left out. -/
theorem manifest_lists_every_declaration_once {t : Transformer} {dump : List Dump.Source}
    {program : Option Program} {output : Output} {files : Table Text Text}
    (h : (t.run (.ofDump dump) program).2.2 = .ok (output, files)) :
    List.Forall₂ (fun p f => f.declared = p.2.name ∧ (Record.ofMethod p.1 p.2 0).function = .ok f)
        (groupedBy (·.1.key) (Codebase.ofDump dump).annotated) output.unitAbi.functions ∧
      (groupedBy (·.1.key) (Codebase.ofDump dump).annotated).Perm (Codebase.ofDump dump).annotated ∧
      List.Forall₂ (fun v e => v.declaration.Announces e)
        ((Codebase.ofDump dump).contracts.filter fun v =>
          v.declaration.isEvent && !v.declaration.isNameless)
        output.unitAbi.events :=
  ⟨run_functions (Codebase.isFresh_ofDump dump) h, groupedBy_perm _ _, run_events h⟩

/-- Two classes of one name in two sources, a class that shares it in the standard library, and an
event. -/
def bazaar : List Dump.Source := [
  { path := .str "stall.ts", isLibrary := false
    classes := [
      { name := .str "Stall", base := .null
        decorators := [⟨.str "event", []⟩, ⟨.str "event", ["'Sold'"]⟩]
        members := [
          .field { name := .str "amount", type := .str "u256", decorators := [] },
          .field { name := .str "note", type := .null, decorators := [] },
          .method (.str "open") [⟨.str "method", []⟩],
          .method (.str "count") [⟨.str "view", []⟩]] },
      { name := .str "Guard", base := .null, decorators := []
        members := [.method (.str "watch") [⟨.str "returns", ["'bool'"]⟩]] }] },
  { path := .str "~lib/stall.ts", isLibrary := false
    classes := [
      { name := .str "Stall", base := .null, decorators := [⟨.str "event", []⟩]
        members := [.method (.str "hide") [⟨.str "method", []⟩]] }] },
  { path := .str "annex.ts", isLibrary := false
    classes := [
      { name := .str "Stall", base := .null, decorators := []
        members := [.method (.str "close") [⟨.str "method", []⟩]] }] }]

theorem manifest_of_bazaar : ∃ output files,
    (({} : Transformer).run (.ofDump bazaar) none).2.2 = .ok (output, files) ∧
      output.unitAbi.functions.map (·.declared) = [.str "open", .str "close", .str "watch"] ∧
      output.unitAbi.events.map (·.name) = [.str "Sold"] := by
  obtain ⟨output, files, ran⟩ := run_completes {}
    (show (Codebase.ofDump bazaar).isTextual = true by decide) (by decide +kernel)
  obtain ⟨functions, -, events⟩ := manifest_lists_every_declaration_once ran
  refine ⟨output, files, ran, ?_, ?_⟩
  · have declared : output.unitAbi.functions.map (·.declared) =
        (groupedBy (·.1.key) (Codebase.ofDump bazaar).annotated).map (·.2.name) := by
      rw [← List.forall₂_eq_eq_eq, List.forall₂_map_left_iff, List.forall₂_map_right_iff]
      exact List.Forall₂.flip (functions.imp fun _ _ entry => entry.1)
    rw [declared]
    decide +kernel
  · have named : output.unitAbi.events.map (·.name) =
        ((Codebase.ofDump bazaar).contracts.filter fun v =>
          v.declaration.isEvent && !v.declaration.isNameless).map fun v =>
            ((v.declaration.lastEvent?.bind (·.unquoted.head?)).map Json.str).getD v.name := by
      rw [← List.forall₂_eq_eq_eq, List.forall₂_map_left_iff, List.forall₂_map_right_iff]
      refine List.Forall₂.flip (events.imp fun v e announced => ?_)
      obtain ⟨last, found, name⟩ := announced.name
      change e.name = _
      rw [name, found]
      rfl
    rw [named]
    decide +kernel

/-- An event without a name. -/
def unnamed : List Dump.Source := [
  { path := .str "unnamed.ts", isLibrary := false
    classes := [
      { name := .null, base := .null, decorators := [⟨.str "event", []⟩], members := [] }] }]

theorem nameless_event_is_not_listed : ∃ output files,
    (({} : Transformer).run (.ofDump unnamed) none).2.2 = .ok (output, files) ∧
      ((Codebase.ofDump unnamed).contracts.map (·.declaration.isEvent)) = [true] ∧
      output.unitAbi.events = [] :=
  ⟨_, _, rfl, rfl, rfl⟩

end Transformer

end ContractAbi
