import ContractAbi.Proofs.Handles
import Mathlib.Data.List.Induction
import Mathlib.Data.List.Nodup

/-!
# Registering declarations

An arena that starts empty lists the first request for each declaration, in the order of the
requests, and every declaration in it holds its own place as its handle. This needs nothing of the
handles that declarations hold before: a stale one may lie inside the arena, but then the entry at
that place is another declaration's, and the declaration gets a new one.
-/

namespace ContractAbi

/-- A declaration, and the class it is to be registered for. -/
abbrev Request := Method × Name

def Request.entry (q : Request) : Registered :=
  ⟨q.1.key, q.1.name, q.2⟩

def Source.requests (s : Source) : List Request :=
  s.classes.flatMap fun c => c.methods.map fun m => (m, c.name)

/-- The ways to register declarations. -/
inductive Registration where
  | one (m : Method) (owner : Name)
  /-- Every method of the sources. -/
  | all (sources : List Source)
  /-- The program of all declarations, which registers the methods that hold no handle. -/
  | naming (sources : List Source)

namespace Registry

def perform (r : Registry) : Registration → Registry
  | .one m owner => (r.add m owner).2
  | .all sources => r.addSources sources
  | .naming sources => (Program.ofSources r sources).1

def performAll (r : Registry) (steps : List Registration) : Registry :=
  steps.foldl perform r

/-! ### Requests -/

def addAll (r : Registry) (requests : List Request) : Registry :=
  requests.foldl (fun r q => (r.add q.1 q.2).2) r

/-- Those of the requests that are made when a declaration that holds a handle is passed over. -/
def unheld (r : Registry) : List Request → List Request
  | [] => []
  | q :: qs =>
    if (r.handles.get? q.1.key).isSome then r.unheld qs else q :: (r.add q.1 q.2).2.unheld qs

/-- The requests that a registration makes. Naming ends at a source whose path is not a text. -/
def requests (r : Registry) : Registration → List Request
  | .one m owner => [(m, owner)]
  | .all sources => sources.flatMap Source.requests
  | .naming sources =>
    r.unheld ((sources.takeWhile (·.path.text?.isSome)).flatMap Source.requests)

/-- All requests that registrations make one after the other. -/
def history (r : Registry) : List Registration → List Request
  | [] => []
  | step :: steps => r.requests step ++ (r.perform step).history steps

theorem addAll_append (r : Registry) (qs qs' : List Request) :
    r.addAll (qs ++ qs') = (r.addAll qs).addAll qs' :=
  List.foldl_append

theorem unheld_append (r : Registry) (qs qs' : List Request) :
    r.unheld (qs ++ qs') = r.unheld qs ++ (r.addAll (r.unheld qs)).unheld qs' := by
  induction qs generalizing r with
  | nil => rfl
  | cons q qs ih =>
    rw [List.cons_append, unheld, unheld]
    split
    · exact ih r
    · rw [ih, List.cons_append]
      rfl

theorem addSources_eq (r : Registry) (sources : List Source) :
    r.addSources sources = r.addAll (sources.flatMap Source.requests) := by
  unfold addSources addAll
  rw [List.foldl_flatMap]
  congr 1
  funext r s
  unfold Source.requests
  rw [List.foldl_flatMap]
  congr 1
  funext r c
  rw [List.foldl_map]
  rfl

theorem foldl_nameMethod (stem : Text) (owner : Name) (ms : List Method)
    (state : Registry × Program) :
    (ms.foldl (Program.nameMethod stem owner) state).1 =
      state.1.addAll (state.1.unheld (ms.map fun m => (m, owner))) := by
  induction ms generalizing state with
  | nil => rfl
  | cons m ms ih =>
    obtain ⟨r, p⟩ := state
    rw [List.foldl_cons, ih, List.map_cons, unheld]
    cases held : r.handles.get? m.key with
    | some handle => simp [Program.nameMethod, held]
    | none => simp [Program.nameMethod, held, addAll]

theorem foldl_nameClass (stem : Text) (cs : List Class) (state : Registry × Program) :
    (cs.foldl (Program.nameClass stem) state).1 =
      state.1.addAll (state.1.unheld (cs.flatMap fun c => c.methods.map fun m => (m, c.name))) := by
  induction cs generalizing state with
  | nil => rfl
  | cons c cs ih =>
    rw [List.foldl_cons, ih, List.flatMap_cons, unheld_append, addAll_append, Program.nameClass,
      foldl_nameMethod]

theorem nameSources_eq (state : Registry × Program) (sources : List Source) :
    (Program.nameSources state sources).1 = state.1.addAll
      (state.1.unheld ((sources.takeWhile (·.path.text?.isSome)).flatMap Source.requests)) := by
  induction sources generalizing state with
  | nil => rfl
  | cons s rest ih =>
    unfold Program.nameSources
    split
    · next path text =>
      rw [ih, foldl_nameClass, List.takeWhile_cons_of_pos (by simp [text, Json.text?]),
        List.flatMap_cons, unheld_append, addAll_append]
      rfl
    · next other =>
      have noText : s.path.text?.isSome = false := by
        cases path : s.path with
        | str text => exact absurd path (other text)
        | _ => rfl
      rw [List.takeWhile_cons_of_neg (by simp [noText])]
      rfl

theorem perform_eq (r : Registry) (step : Registration) :
    r.perform step = r.addAll (r.requests step) := by
  cases step with
  | one m owner => rfl
  | all sources => exact r.addSources_eq sources
  | naming sources => exact nameSources_eq (r, {}) sources

theorem performAll_eq (r : Registry) (steps : List Registration) :
    r.performAll steps = r.addAll (r.history steps) := by
  induction steps generalizing r with
  | nil => rfl
  | cons step steps ih =>
    rw [history, addAll_append, ← perform_eq, ← ih]
    rfl

/-! ### What stays -/

theorem hasHandle_addAll {r : Registry} {key handle : Nat} (has : r.HasHandle key handle)
    (qs : List Request) : (r.addAll qs).HasHandle key handle :=
  List.foldlRecOn (motive := fun s : Registry => s.HasHandle key handle) qs _ has
    fun _ has q _ => hasHandle_add has q.1 q.2

theorem prefix_arena_add (r : Registry) (m : Method) (owner : Name) :
    r.arena <+: (r.add m owner).2.arena := by
  unfold add
  split
  · exact List.prefix_rfl
  · exact List.prefix_append _ _

theorem prefix_arena_addAll (r : Registry) (qs : List Request) :
    r.arena <+: (r.addAll qs).arena :=
  List.foldlRecOn (motive := fun s : Registry => r.arena <+: s.arena) qs _ List.prefix_rfl
    fun s grown q _ => grown.trans (s.prefix_arena_add q.1 q.2)

/-! ### Places as handles -/

/-- Every declaration of the arena holds its place there. -/
def IsIndexed (r : Registry) : Prop :=
  ∀ i e, r.arena[i]? = some e → r.handles.get? e.key = some i

theorem IsIndexed.hasHandle {r : Registry} (indexed : r.IsIndexed) {i : Nat} {e : Registered}
    (found : r.arena[i]? = some e) : r.HasHandle e.key i :=
  ⟨indexed i e found, by simp [found]⟩

theorem IsIndexed.nodup {r : Registry} (indexed : r.IsIndexed) : (r.arena.map (·.key)).Nodup := by
  rw [List.nodup_iff_getElem?_ne_getElem?]
  intro i j before inside same
  rw [List.length_map] at inside
  have first := List.getElem?_eq_getElem (Nat.lt_trans before inside)
  have second := List.getElem?_eq_getElem inside
  rw [List.getElem?_map, List.getElem?_map, first, second, Option.map_some, Option.map_some,
    Option.some_inj] at same
  have place := indexed i _ first
  rw [same, indexed j _ second, Option.some_inj] at place
  omega

theorem add_of_new {r : Registry} {m : Method} (new : m.key ∉ r.arena.map (·.key)) (owner : Name) :
    r.add m owner = (r.arena.length,
      { handles := r.handles.insert m.key r.arena.length
        arena := r.arena ++ [Request.entry (m, owner)] }) := by
  have missing : r.handleOf? m = none := by
    cases found : r.handleOf? m with
    | none => rfl
    | some handle =>
      obtain ⟨e, placed, same⟩ := (handleOf?_eq_some.mp found).entry
      exact absurd (List.mem_map.mpr ⟨e, List.mem_of_getElem? placed, same⟩) new
  simp [add, missing, Request.entry]

theorem IsIndexed.add_of_listed {r : Registry} (indexed : r.IsIndexed) {m : Method}
    (listed : m.key ∈ r.arena.map (·.key)) (owner : Name) : (r.add m owner).2 = r := by
  obtain ⟨e, member, same⟩ := List.mem_map.mp listed
  obtain ⟨i, placed⟩ := List.getElem?_of_mem member
  rw [add_of_hasHandle (same ▸ indexed.hasHandle placed)]

theorem IsIndexed.arena_add {r : Registry} (indexed : r.IsIndexed) (m : Method) (owner : Name) :
    (r.add m owner).2.arena =
      if m.key ∈ r.arena.map (·.key) then r.arena else r.arena ++ [Request.entry (m, owner)] := by
  split
  · next listed => rw [indexed.add_of_listed listed]
  · next new => rw [add_of_new new]

theorem IsIndexed.add {r : Registry} (indexed : r.IsIndexed) (m : Method) (owner : Name) :
    (r.add m owner).2.IsIndexed := by
  by_cases listed : m.key ∈ r.arena.map (·.key)
  · rwa [indexed.add_of_listed listed]
  · rw [add_of_new listed]
    intro i e found
    dsimp only at found ⊢
    by_cases inside : i < r.arena.length
    · rw [List.getElem?_append_left inside] at found
      have different : e.key ≠ m.key := by
        rintro same
        exact listed (List.mem_map.mpr ⟨e, List.mem_of_getElem? found, same⟩)
      rw [Table.get?_insert_of_ne _ _ different]
      exact indexed i e found
    · rw [List.getElem?_append_right (by omega), List.getElem?_singleton] at found
      split at found
      · cases found
        rw [show i = r.arena.length by omega]
        exact Table.get?_insert_self ..
      · cases found

/-- The arena lists the first request for each declaration. -/
theorem addAll_spec (handles : Table Nat Nat) (qs : List Request) :
    let r := ({ handles } : Registry).addAll qs
    r.IsIndexed ∧ r.arena = firstOfEach (·.key) (qs.map Request.entry) := by
  induction qs using List.reverseRecOn with
  | nil => exact ⟨nofun, rfl⟩
  | append_singleton qs q ih =>
    obtain ⟨indexed, arena⟩ := ih
    rw [addAll_append]
    refine ⟨indexed.add q.1 q.2, ?_⟩
    have known : q.entry.key ∈ (({ handles } : Registry).addAll qs).arena.map (·.key) ↔
        q.entry.key ∈ (qs.map Request.entry).map (·.key) := by
      rw [arena, map_firstOfEach, mem_distinct]
    rw [List.map_append, List.map_singleton, firstOfEach_concat, ← arena]
    simp only [← known]
    exact indexed.arena_add q.1 q.2

/-- However declarations are registered in an arena that starts empty, and whatever handles they hold
before: each is listed once, under the handle that it holds, with the owner of the first request for
it. Adding it gives that handle, at once and ever after, and changes nothing once it is listed. -/
theorem handles_identify_declarations (handles : Table Nat Nat) (steps : List Registration) :
    let start : Registry := { handles }
    let r := start.performAll steps
    (r.arena.map (·.key)).Nodup ∧
    (∀ i e, r.arena[i]? = some e → r.handles.get? e.key = some i) ∧
    r.arena = firstOfEach (·.key) ((start.history steps).map Request.entry) ∧
    ∀ m owner,
      let added := r.add m owner
      (added.2.arena[added.1]?).map (·.key) = some m.key ∧
      (m.key ∈ r.arena.map (·.key) → added.2 = r) ∧
      ∀ later owner',
        let s := added.2.performAll later
        s.add m owner' = (added.1, s) ∧ s.arena[added.1]? = added.2.arena[added.1]? := by
  intro start r
  obtain ⟨indexed, arena⟩ := addAll_spec handles (start.history steps)
  rw [← performAll_eq] at indexed arena
  refine ⟨indexed.nodup, indexed, arena, fun m owner => ?_⟩
  have has := r.add_hasHandle m owner
  obtain ⟨e, placed, key⟩ := has.entry
  refine ⟨by rw [placed, Option.map_some, key], fun listed => indexed.add_of_listed listed owner,
    fun later owner' => ?_⟩
  rw [performAll_eq]
  refine ⟨add_of_hasHandle (hasHandle_addAll has _) owner', ?_⟩
  have inside := (List.getElem?_eq_some_iff.mp placed).1
  obtain ⟨more, grown⟩ := (r.add m owner).2.prefix_arena_addAll ((r.add m owner).2.history later)
  rw [← grown, List.getElem?_append_left inside]

-- Two methods hold the same stale handle, and it lies inside the arena once one of them is there.
example :
    let mint : Method := { key := 7, name := .str "mint" }
    let burn : Method := { key := 8, name := .str "burn" }
    let r := ({ handles := .ofPairs [(7, 0), (8, 0)] } : Registry).performAll
      [.one burn (.str "Token"), .one mint (.str "Vault"), .one burn (.str "Vault")]
    r.arena.map (fun e => (e.key, e.owner)) = [(8, .str "Token"), (7, .str "Vault")] ∧
      r.handles.entries = [(7, 1), (8, 0)] := by
  decide

end Registry

end ContractAbi
