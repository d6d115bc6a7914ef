import ContractAbi.Proofs.Histories

/-!
# Internal names

The program of all declarations names the methods one after another by their handles, and of methods
that hold one handle the last one counts. A survey gives every method that it visits a handle of its
own, but a library method keeps the handle that an earlier run gave it. So a record has the name of
its own method unless a later library method still holds its handle.
-/

namespace ContractAbi

def Element.isRecorded (e : Element) : Bool :=
  !e.isLibrary && e.method.isAnnotated

namespace Codebase

theorem map_recorded (code : Codebase) :
    (code.elements.filter Element.isRecorded).map (fun e => (e.owner, e.method)) =
      code.annotated := by
  have annotated : code.annotated =
      (code.visited.map fun e => (e.owner, e.method)).filter (·.2.isAnnotated) := by
    rw [map_visited, List.filter_flatMap]
    rfl
  rw [annotated, List.filter_map, visited, List.filter_filter]
  congr 2
  funext e
  exact Bool.and_comm _ _

theorem IsFresh.eq_of_key {code : Codebase} (fresh : code.IsFresh) {e e' : Element}
    (member : e ∈ code.elements) (member' : e' ∈ code.elements) (same : e.key = e'.key) : e = e' := by
  have distinct : (code.elements.map Element.key).Nodup := by
    have keys : code.elements.map Element.key = code.methods.map (·.key) := by
      rw [← map_method_elements, List.map_map]
      rfl
    rw [keys]
    exact fresh
  exact List.inj_on_of_nodup_map distinct member member' same

end Codebase

/-! ### The program of all declarations -/

namespace Program

/-- Naming a method changes what handles of the arena stand for only if the method holds them. -/
theorem nameElement_spec (state : Registry × Program) (e : Element) {handle : Nat}
    (below : handle < state.1.arena.length) :
    handle < (nameElement state e).1.arena.length ∧
      (∀ key, (nameElement state e).1.handles.get? key = some handle ↔
        state.1.handles.get? key = some handle) ∧
      (nameElement state e).2.nameOf? (.int handle) =
        if state.1.handles.get? e.key = some handle then some (.str e.name)
        else state.2.nameOf? (.int handle) := by
  obtain ⟨r, p⟩ := state
  cases held : r.handles.get? e.method.key with
  | some own =>
    have named : nameElement (r, p) e = (r, p.register (.int own) (.str e.name)) := by
      simp only [nameElement, nameMethod, held]
      rfl
    rw [named, nameOf?_register]
    refine ⟨below, fun _ => Iff.rfl, ?_⟩
    simp only [Element.key, held, Option.some.injEq, eq_comm]
  | none =>
    have missing : r.handleOf? e.method = none := by simp [Registry.handleOf?, held]
    have named : nameElement (r, p) e =
        ({ handles := r.handles.insert e.key r.arena.length
           arena := r.arena ++ [⟨e.key, e.method.name, e.owner⟩] },
          p.register (.int r.arena.length) (.str e.name)) := by
      simp only [nameElement, nameMethod, held, Registry.add, missing]
      rfl
    have inside : handle < r.arena.length := below
    rw [named, nameOf?_register]
    refine ⟨by simp; omega, fun key => ?_, ?_⟩
    · by_cases same : key = e.key
      · rw [same, Table.get?_insert_self]
        simp [Element.key, held]
        omega
      · rw [Table.get?_insert_of_ne _ _ same]
    · rw [if_neg (by omega), if_neg (by simp [Element.key, held])]

/-- Of the methods that hold a handle of the arena, the last one gives it its name. -/
theorem nameOf?_foldl (es : List Element) (state : Registry × Program) {handle : Nat}
    (below : handle < state.1.arena.length) :
    (es.foldl nameElement state).2.nameOf? (.int handle) =
      (((es.filter fun e => state.1.handles.get? e.key = some handle).getLast?.map
        fun e => Json.str e.name).or (state.2.nameOf? (.int handle))) := by
  induction es generalizing state with
  | nil => rfl
  | cons e es ih =>
    obtain ⟨inside, holds, named⟩ := nameElement_spec state e below
    rw [List.foldl_cons, ih _ inside, named, List.filter_cons]
    simp only [holds]
    by_cases here : state.1.handles.get? e.key = some handle
    · simp only [here, decide_true, if_true, List.getLast?_cons]
      cases (es.filter fun e => state.1.handles.get? e.key = some handle).getLast? <;> rfl
    · simp [here]

end Program

/-! ### Records -/

theorem Catalog.resolveNames_eq_ok {c : Catalog} {p : Program} :
    (c.resolveNames p).2 = .ok () ↔ ∀ r ∈ c.ordered, r.isDropped p = false := by
  have outcome : (c.resolveNames p).2 = .ok () ↔ failure? (c.resolveNames p).2 = none := by
    rw [failure?_eq_none]
    exact ⟨fun same => ⟨(), same⟩, fun ⟨_, same⟩ => same⟩
  rw [outcome, resolveNames, failure?_forM, List.findSome?_eq_none_iff]
  constructor
  · intro none r member
    obtain ⟨⟨owner, records⟩, listed, inside⟩ := List.mem_flatMap.mp member
    have passed := none _ listed
    dsimp only at passed
    cases found : records.find? (Record.isDropped p) with
    | none => simpa using List.find?_eq_none.mp found r inside
    | some dropped =>
      rw [found] at passed
      cases passed
  · rintro all ⟨owner, records⟩ listed
    have none : records.find? (Record.isDropped p) = none := by
      rw [List.find?_eq_none]
      intro r inside
      simp [all r (List.mem_flatMap.mpr ⟨_, listed, inside⟩)]
    dsimp only
    rw [none]
    rfl

namespace Codebase

/-- The methods that hold the handle of a visited method: this method itself, and library methods that
have it from an earlier run. -/
def holders (code : Codebase) (e : Element) (handle : Nat) : List Element :=
  code.elements.filter fun other =>
    other = e || other.isLibrary && code.handles.get? other.key = some handle

theorem getLast?_holders {code : Codebase} {e : Element} {handle : Nat} (member : e ∈ code.elements)
    (alone : ∀ other ∈ code.elements, other.isLibrary = true →
      code.handles.get? other.key ≠ some handle) :
    (code.holders e handle).getLast? = some e := by
  have inside : e ∈ code.holders e handle := List.mem_filter.mpr ⟨member, by simp⟩
  cases last : (code.holders e handle).getLast? with
  | none =>
    rw [List.getLast?_eq_none_iff.mp last] at inside
    cases inside
  | some other =>
    obtain ⟨declared, holds⟩ := List.mem_filter.mp (List.mem_of_getLast? last)
    rw [Bool.or_eq_true, Bool.and_eq_true, decide_eq_true_eq, decide_eq_true_eq] at holds
    rcases holds with rfl | ⟨library, held⟩
    · rfl
    · exact absurd held (alone other declared library)

section Surveyed

variable {code : Codebase} (fresh : code.IsFresh) (walked : code.surveyed.2 = .ok ()) {e : Element}
  {handle : Nat}

include fresh walked

theorem surveyed_arena :
    code.surveyed.1.registry.arena.map (·.key) = code.visited.map Element.key := by
  rw [(surveyed_adds fresh walked).arena, ← map_visited, List.nil_append, List.map_map, List.map_map]
  rfl

/-- The handle of a visited method is its number among those that are visited. -/
theorem visited_getElem? (member : e ∈ code.elements)
    (has : code.surveyed.1.registry.HasHandle e.key handle) : code.visited[handle]? = some e := by
  have placed : (code.visited.map Element.key)[handle]? = some e.key := by
    rw [← surveyed_arena fresh walked, List.getElem?_map]
    cases found : code.surveyed.1.registry.arena[handle]? with
    | none => simpa [found] using has.2
    | some entry => simpa [found] using has.2
  rw [List.getElem?_map, Option.map_eq_some_iff] at placed
  obtain ⟨other, found, same⟩ := placed
  have listed := (List.mem_filter.mp (List.mem_of_getElem? found)).1
  rw [found, fresh.eq_of_key listed member same]

theorem surveyed_holders (member : e ∈ code.visited)
    (has : code.surveyed.1.registry.HasHandle e.key handle) :
    code.elements.filter (fun other =>
      code.surveyed.1.registry.handles.get? other.key = some handle) = code.holders e handle := by
  have adds := surveyed_adds fresh walked
  obtain ⟨listed, outside⟩ := List.mem_filter.mp member
  refine List.filter_congr fun other declared => ?_
  cases library : other.isLibrary with
  | true =>
    have unvisited : other.key ∉ (code.contracts.flatMap Contract.methods).map (·.2.key) := by
      rw [← map_visited, List.map_map]
      intro known
      obtain ⟨own, inside, same⟩ := List.mem_map.mp known
      obtain ⟨declared', visited⟩ := List.mem_filter.mp inside
      rw [fresh.eq_of_key declared' declared same, library] at visited
      cases visited
    have different : other ≠ e := by
      rintro rfl
      rw [library] at outside
      cases outside
    rw [adds.others _ unvisited]
    simp [different]
  | false =>
    have visited : other ∈ code.visited := List.mem_filter.mpr ⟨declared, by simp [library]⟩
    obtain ⟨own, held⟩ := adds.registered (other.owner, other.method)
      (map_visited code ▸ List.mem_map_of_mem visited)
    have same : own = handle ↔ other = e := by
      have place := visited_getElem? fresh walked declared held
      have place' := visited_getElem? fresh walked listed has
      constructor
      · rintro rfl
        exact Option.some.inj (place.symm.trans place')
      · rintro rfl
        exact Option.some.inj (held.1.symm.trans has.1)
    have given : code.surveyed.1.registry.handles.get? other.key = some own := held.1
    simp [given, same]

end Surveyed

end Codebase

namespace Transformer

variable {t : Transformer} {code : Codebase} {program : Option Program} {output : Output}
  {files : Table Text Text}

theorem run_internalName (fresh : code.IsFresh) (h : (t.run code program).2.2 = .ok (output, files)) :
    ∃ p, code.programOr program = .ok p ∧
      ∀ r ∈ output.catalog.records, r.internalName = p.nameOf? (.int r.handle) := by
  obtain ⟨⟨c, surveyed, same⟩, -⟩ := run_ok h
  obtain ⟨walked, p, chosen, named, rfl⟩ := Codebase.survey_eq_ok surveyed
  refine ⟨p, chosen, fun r member => ?_⟩
  have present := Catalog.resolveNames_eq_ok.mp named
  have ordered : ∀ old ∈ code.catalog.records, old ∈ code.catalog.ordered :=
    fun _ => Catalog.mem_ordered_of_plain (code.catalog_plain fresh walked)
  have renamed : ∀ old ∈ code.catalog.records,
      (code.catalog.rename p old).internalName = p.nameOf? (.int old.handle) ∧
        (code.catalog.rename p old).handle = old.handle := by
    intro old listed
    have reached : old.handle ∈
        (Catalog.reached (Record.isDropped p) code.catalog.ordered).map (·.handle) := by
      rw [Catalog.reached_of_none present]
      exact List.mem_map_of_mem (ordered old listed)
    have found := present old (ordered old listed)
    unfold Catalog.rename Record.resolveName
    rw [if_pos reached]
    unfold Record.isDropped at found
    cases looked : p.nameOf? (.int old.handle) with
    | none => simp [looked] at found
    | some name => exact ⟨rfl, rfl⟩
  rw [same, Catalog.settled, Catalog.updateThose_eq] at member
  obtain ⟨middle, inside, rfl⟩ := List.mem_map.mp member
  obtain ⟨old, listed, rfl⟩ := List.mem_map.mp inside
  obtain ⟨name, handle⟩ := renamed old listed
  split
  · rw [Record.settle_eq, handle]
    exact name
  · rw [handle]
    exact name

theorem nameOf?_handle {p : Program} (fresh : code.IsFresh) (walked : code.surveyed.2 = .ok ())
    (chosen : code.programOr none = .ok p) {e : Element} (member : e ∈ code.visited) {handle : Nat}
    (has : code.surveyed.1.registry.HasHandle e.key handle) :
    p.nameOf? (.int handle) = (code.holders e handle).getLast?.map fun e => .str e.name := by
  have below : handle < code.surveyed.1.registry.arena.length := by
    by_contra outside
    have placed := has.2
    rw [List.getElem?_eq_none (Nat.le_of_not_lt outside)] at placed
    cases placed
  have named := Program.nameOf?_foldl code.elements (code.surveyed.1.registry, {}) below
  rw [Codebase.surveyed_holders fresh walked member has] at named
  rw [Program.nameSources_ok chosen]
  exact named.trans (Option.or_none ..)

/-- What a run without a program calls its records, after any number of earlier runs. A record has the
name of the last method that holds its handle. This is the recorded method, or a library method that
has the handle from an earlier run. -/
theorem internal_name_is_of_last_holder {t : Transformer} {code : Codebase} {output : Output}
    {files : Table Text Text} (reachable : code.Reachable)
    (h : (t.run code none).2.2 = .ok (output, files)) :
    List.Forall₂ (fun e r => r.Describes (e.owner, e.method) ∧ code.visited[r.handle]? = some e ∧
      r.internalName = (code.holders e r.handle).getLast?.map (fun e => .str e.name) ∧
      ((∀ other ∈ code.elements, other.isLibrary = true →
        code.handles.get? other.key ≠ some r.handle) → r.internalName = some (.str e.name)))
      (code.elements.filter Element.isRecorded) output.catalog.records := by
  have fresh := reachable.wellKeyed.fresh
  have walked := surveyed_of_run_ok h
  obtain ⟨p, chosen, names⟩ := run_internalName fresh h
  have registered := run_registered fresh h
  rw [← Codebase.map_recorded, List.forall₂_map_left_iff] at registered
  have named := ((List.forall₂_and_left _ _).mpr ⟨names, registered.flip⟩).flip
  refine ((List.forall₂_and_left _ _).mpr ⟨fun e member => member, named⟩).imp ?_
  rintro e r ⟨member, name, describes, has⟩
  obtain ⟨declared, recorded⟩ := List.mem_filter.mp member
  have visited : e ∈ code.visited := by
    refine List.mem_filter.mpr ⟨declared, ?_⟩
    exact (Bool.and_eq_true_iff.mp recorded).1
  rw [nameOf?_handle fresh walked chosen visited has] at name
  refine ⟨describes, Codebase.visited_getElem? fresh walked declared has, name, fun alone => ?_⟩
  rw [name, Codebase.getLast?_holders declared alone]
  rfl

/-- Two contracts, and a library method that is declared after them. -/
def depot : List Dump.Source := [
  { path := .str "contract.ts", isLibrary := false
    classes := [
      { name := .str "Token", base := .null, decorators := []
        members := [.method (.str "mint") [⟨.str "method", []⟩]] },
      { name := .str "Vault", base := .null, decorators := []
        members := [.method (.str "lock") [⟨.str "method", []⟩]] }] },
  { path := .str "~lib/x.ts", isLibrary := false
    classes := [
      { name := .str "Lib", base := .null, decorators := []
        members := [.method (.str "foo") []] }] }]

/-- What a run leaves of `depot`. -/
def usedDepot : Codebase :=
  (({} : Transformer).run (.ofDump depot) none).2.1

def depotElement (owner method : Text) (key : Nat) : Element where
  stem := "contract"
  owner := .str owner
  method := { key, name := .str method, decorators := [⟨.str "method", []⟩] }
  isLibrary := false

theorem recorded_usedDepot : usedDepot.elements.filter Element.isRecorded =
    [depotElement "Token" "mint" 0, depotElement "Vault" "lock" 1] := by
  decide +kernel

theorem handle_usedDepot (place : Nat) {e : Element} {handle : Nat}
    (placed : usedDepot.visited[handle]? = some e) (known : [0, 3, 1, 4][place]? = some e.key) :
    handle = place := by
  have keys : usedDepot.visited.map Element.key = [0, 3, 1, 4] := by decide +kernel
  have same : (usedDepot.visited.map Element.key)[handle]? = some e.key := by
    rw [List.getElem?_map, placed]
    rfl
  rw [keys, ← known] at same
  have inside : place < [0, 3, 1, 4].length := (List.getElem?_eq_some_iff.mp known).1
  exact ((List.getElem?_inj inside (by decide)).mp same.symm).symm

/-- The routine of the first contract has moved the second one on, to the handle of the library
method. -/
theorem internal_names_of_usedDepot : usedDepot.Reachable ∧
    ∃ (output : Output) (files : Table Text Text) (minted locked : Record),
      (({} : Transformer).run usedDepot none).2.2 = .ok (output, files) ∧
      output.catalog.records = [minted, locked] ∧
      minted.internalName = some (.str "contract/Token#mint") ∧
      locked.internalName = some (.str "~lib/x/Lib#foo") := by
  have reachable : usedDepot.Reachable := (Codebase.Reachable.loaded depot).run {} none
  have textual : usedDepot.isTextual = true := by decide +kernel
  obtain ⟨output, files, ran⟩ := run_completes {} textual (by decide +kernel)
  have each := internal_name_is_of_last_holder reachable ran
  rw [recorded_usedDepot] at each
  obtain ⟨minted, _, ⟨-, first, mint, -⟩, others, listed⟩ := List.forall₂_cons_left_iff.mp each
  obtain ⟨locked, _, ⟨-, second, lock, -⟩, others, listed'⟩ := List.forall₂_cons_left_iff.mp others
  rw [listed', List.forall₂_nil_left_iff.mp others] at listed
  refine ⟨reachable, output, files, minted, locked, ran, listed, ?_, ?_⟩
  · rw [mint, handle_usedDepot 0 first (by decide)]
    decide +kernel
  · rw [lock, handle_usedDepot 2 second (by decide)]
    decide +kernel

/-- A record may end up with the name of another method. -/
theorem lock_is_named_after_library :
    (({} : Transformer).run usedDepot none).2.2.toOption.map
      (fun result => result.1.catalog.records.map fun r => (r.declared, r.internalName)) =
      some [(.str "mint", some (.str "contract/Token#mint")),
        (.str "lock", some (.str "~lib/x/Lib#foo"))] := by
  decide +kernel

end Transformer

end ContractAbi
