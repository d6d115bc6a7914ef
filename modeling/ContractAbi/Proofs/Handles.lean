import ContractAbi.Catalog.Survey

/-!
# Handles and names

A method that has a handle in an arena keeps it while others are registered, and the program of all
declarations has a name under it: `nameSources_reaches`.
-/

namespace ContractAbi

namespace Registry

/-- The method with this key has been registered in this arena, under this handle. -/
def HasHandle (r : Registry) (key handle : Nat) : Prop :=
  r.handles.get? key = some handle ∧ (r.arena[handle]?).any (·.key == key) = true

theorem handleOf?_eq_some {r : Registry} {m : Method} {handle : Nat} :
    r.handleOf? m = some handle ↔ r.HasHandle m.key handle := by
  simp [handleOf?, HasHandle, Option.filter_eq_some_iff]

theorem HasHandle.entry {r : Registry} {key handle : Nat} (has : r.HasHandle key handle) :
    ∃ e, r.arena[handle]? = some e ∧ e.key = key := by
  have placed := has.2
  cases found : r.arena[handle]? with
  | none => simp [found] at placed
  | some e => exact ⟨e, rfl, by simpa [found] using placed⟩

theorem HasHandle.key_eq {r : Registry} {key key' handle : Nat} (has : r.HasHandle key handle)
    (has' : r.HasHandle key' handle) : key = key' := by
  obtain ⟨e, found, rfl⟩ := has.entry
  obtain ⟨e', found', rfl⟩ := has'.entry
  rw [found] at found'
  rw [Option.some.inj found']

theorem add_hasHandle (r : Registry) (m : Method) (owner : Name) :
    (r.add m owner).2.HasHandle m.key (r.add m owner).1 := by
  unfold add
  split
  · rename_i handle found
    exact handleOf?_eq_some.mp found
  · exact ⟨Table.get?_insert_self .., by simp⟩

theorem add_of_hasHandle {r : Registry} {m : Method} {handle : Nat}
    (has : r.HasHandle m.key handle) (owner : Name) : r.add m owner = (handle, r) := by
  simp [add, handleOf?_eq_some.mpr has]

theorem hasHandle_add {r : Registry} {key handle : Nat} (has : r.HasHandle key handle) (m : Method)
    (owner : Name) : (r.add m owner).2.HasHandle key handle := by
  unfold add
  split
  · exact has
  · rename_i missing
    have different : key ≠ m.key := by
      rintro rfl
      rw [handleOf?_eq_some.mpr has] at missing
      cases missing
    obtain ⟨e, found, key⟩ := has.entry
    have inside := (List.getElem?_eq_some_iff.mp found).1
    refine ⟨(Table.get?_insert_of_ne _ _ different).trans has.1, ?_⟩
    rw [List.getElem?_append_left inside, found]
    simpa using key

theorem mem_arena_add {r : Registry} {m : Method} {owner : Name} {e : Registered}
    (member : e ∈ (r.add m owner).2.arena) : e ∈ r.arena ∨ e = ⟨m.key, m.name, owner⟩ := by
  unfold add at member
  split at member
  · exact Or.inl member
  · exact (List.mem_append.mp member).imp id List.mem_singleton.mp

end Registry

/-! ### Declared methods -/

/-- A method declaration, with what its name in a program is made of. -/
structure Element where
  stem : Text
  owner : Name
  method : Method
  isLibrary : Bool
deriving DecidableEq, Repr

namespace Element

def name (e : Element) : Text :=
  Program.elementName e.stem e.owner e.method.name

def key (e : Element) : Nat :=
  e.method.key

end Element

namespace Source

/-- Whether a survey passes the source over. -/
def isPassedOver (s : Source) : Bool :=
  match s.isStandard with
  | .ok true => true
  | _ => false

def elements (s : Source) : List Element :=
  s.classes.flatMap fun c => c.methods.map fun method =>
    { stem := Program.pathStem (s.path.text?.getD ""), owner := c.name, method
      isLibrary := s.isPassedOver }

theorem isLibrary_of_mem {s : Source} {e : Element} (member : e ∈ s.elements) :
    e.isLibrary = s.isPassedOver := by
  obtain ⟨c, -, own⟩ := List.mem_flatMap.mp member
  obtain ⟨m, -, rfl⟩ := List.mem_map.mp own
  rfl

end Source

namespace Program

/-! ### Names in a program -/

/-- The program has a name under this handle. -/
def Names (p : Program) (handle : Nat) : Prop :=
  (p.nameOf? (.int handle)).isSome = true

theorem nameOf?_register (p : Program) (handle other : Nat) (name : Text) :
    (p.register (.int other) (.str name)).nameOf? (.int handle) =
      if handle = other then some (.str name) else p.nameOf? (.int handle) := by
  unfold nameOf? register
  split
  · rename_i same
    simp [same]
  · rename_i different
    have apart : (Json.int handle).key ≠ (Json.int other).key := by
      simp only [Json.key, ne_eq, Json.int.injEq]
      omega
    rw [Table.get?_insert_of_ne _ _ apart]

theorem register_names_self (p : Program) (handle : Nat) (name : Text) :
    (p.register (.int handle) (.str name)).Names handle := by
  unfold Names
  rw [nameOf?_register, if_pos rfl]
  rfl

theorem register_names {p : Program} {handle : Nat} (named : p.Names handle) (other : Nat)
    (name : Text) : (p.register (.int other) (.str name)).Names handle := by
  unfold Names
  rw [nameOf?_register]
  split
  · rfl
  · exact named

/-! ### The program of all declarations -/

def nameElement (state : Registry × Program) (e : Element) : Registry × Program :=
  nameMethod e.stem e.owner state e.method

theorem nameSources_ok {sources : List Source} {state : Registry × Program} {p : Program}
    (h : (nameSources state sources).2 = .ok p) :
    p = ((sources.flatMap Source.elements).foldl nameElement state).2 := by
  induction sources generalizing state with
  | nil =>
    cases h
    rfl
  | cons s rest ih =>
    have own (path : Text) (text : s.path = .str path) :
        s.elements.foldl nameElement state = s.classes.foldl (nameClass (pathStem path)) state := by
      unfold Source.elements
      simp only [List.foldl_flatMap, List.foldl_map, text]
      rfl
    unfold nameSources at h
    split at h
    · rename_i path text
      rw [List.flatMap_cons, List.foldl_append, own path text]
      exact ih h
    · cases h

/-- A fold that keeps what holds before it and what it is to bring about, and brings it about at one
element, has brought it about at the end. -/
theorem foldl_reaches {σ α : Type} {f : σ → α → σ} {Before After : σ → Prop}
    (keepsBefore : ∀ s x, Before s → Before (f s x)) (keepsAfter : ∀ s x, After s → After (f s x))
    {x : α} (reaches : ∀ s, Before s → After (f s x)) {xs : List α} (member : x ∈ xs) {s : σ}
    (start : Before s) : After (xs.foldl f s) := by
  induction xs generalizing s with
  | nil => cases member
  | cons y ys ih =>
    rcases List.mem_cons.mp member with rfl | later
    · exact List.foldlRecOn ys f (reaches s start) fun s done z _ => keepsAfter s z done
    · exact ih later (keepsBefore s y start)

section OfSources

variable {key handle : Nat}

/-- The method with this key holds this handle. -/
def Holds (key handle : Nat) (state : Registry × Program) : Prop :=
  state.1.handles.get? key = some handle

def Named (handle : Nat) (state : Registry × Program) : Prop :=
  state.2.Names handle

theorem nameElement_holds (state : Registry × Program) (e : Element)
    (holds : Holds key handle state) : Holds key handle (nameElement state e) := by
  obtain ⟨r, p⟩ := state
  unfold nameElement nameMethod
  cases held : r.handles.get? e.method.key with
  | some _ => simpa [Holds, held] using holds
  | none =>
    have different : key ≠ e.method.key := by
      rintro rfl
      rw [Holds, held] at holds
      cases holds
    have missing : r.handleOf? e.method = none := by simp [Registry.handleOf?, held]
    simp only [Holds, Registry.add, held, missing]
    exact (Table.get?_insert_of_ne _ _ different).trans holds

theorem nameElement_named (state : Registry × Program) (e : Element) (named : Named handle state) :
    Named handle (nameElement state e) :=
  register_names named ..

theorem nameElement_reaches {e : Element} (state : Registry × Program)
    (holds : Holds e.key handle state) : Named handle (nameElement state e) := by
  obtain ⟨r, p⟩ := state
  have held : r.handles.get? e.method.key = some handle := holds
  simp only [nameElement, nameMethod, held]
  exact register_names_self ..

/-- Every method that holds a handle has a name in the program of all declarations. -/
theorem nameSources_reaches {sources : List Source} {state : Registry × Program} {p : Program}
    {e : Element} (member : e ∈ sources.flatMap Source.elements) (holds : Holds e.key handle state)
    (h : (nameSources state sources).2 = .ok p) : p.Names handle := by
  rw [nameSources_ok h]
  exact foldl_reaches nameElement_holds nameElement_named nameElement_reaches member holds

end OfSources

end Program

end ContractAbi
