import ContractAbi.Proofs.Bookkeeping
import Mathlib.Data.List.Induction

/-!
# What the decorators of a method come to

Decorators are read one after another, and yet what they come to can be told kind by kind: the last
`@method` and the last `@returns` count, the events of all `@emit` add up, and a flag is set if its
decorator is there at all. The first visit of a method makes exactly this record of it:
`visitMethod_unseen`.
-/

namespace ContractAbi

/-! ### Sites -/

/-- The decorators of that name, in order. -/
def sites (kind : Text) (ds : List Decorator) : List Decorator :=
  ds.filter (·.name.isText kind)

def carries (kind : Text) (ds : List Decorator) : Bool :=
  ds.any (·.name.isText kind)

theorem sites_concat (kind : Text) (ds : List Decorator) (d : Decorator) :
    sites kind (ds ++ [d]) =
      if d.name.isText kind then sites kind ds ++ [d] else sites kind ds := by
  by_cases own : d.name.isText kind = true <;> simp [sites, List.filter_append, own]

theorem carries_concat (kind : Text) (ds : List Decorator) (d : Decorator) :
    carries kind (ds ++ [d]) = (carries kind ds || d.name.isText kind) := by
  simp [carries]

namespace Annotations

/-- What decorators say, kind by kind. -/
def ofSites (declared : Name) (ds : List Decorator) : Annotations where
  method := (sites "method" ds).getLast?.map fun d =>
    ((MethodArguments.parse d.unquoted).nameOr declared,
      (MethodArguments.parse d.unquoted).toParams)
  returns := (sites "returns" ds).getLast?.map fun d => d.unquoted.map Param.parse
  emits := distinct ((sites "emit" ds).flatMap Decorator.unquoted)
  isView := carries "view" ds
  isPayable := carries "payable" ds
  isOwnerOnly := carries "onlyOwner" ds

/-- Whatever is known before, decorators add to it kind by kind. -/
theorem addAll_eq (declared : Name) (a : Annotations) (ds : List Decorator) :
    addAll declared a ds =
      { method := (ofSites declared ds).method.or a.method
        returns := (ofSites declared ds).returns.or a.returns
        emits := appendAllNew a.emits ((sites "emit" ds).flatMap Decorator.unquoted)
        isView := a.isView || carries "view" ds
        isPayable := a.isPayable || carries "payable" ds
        isOwnerOnly := a.isOwnerOnly || carries "onlyOwner" ds } := by
  induction ds using List.reverseRecOn with
  | nil => simp [addAll, ofSites, sites, carries, appendAllNew]
  | append_singleton ds d ih =>
    have step : addAll declared a (ds ++ [d]) = (addAll declared a ds).add declared d :=
      List.foldl_concat ..
    rw [step, ih]
    unfold add
    split_ifs
    -- A decorator is a site of one kind at the most, so all fields but one stay as they are.
    all_goals
      simp_all [ofSites, sites_concat, carries_concat, Json.isText, appendAllNew_append]

theorem addAll_eq_ofSites (declared : Name) (ds : List Decorator) :
    addAll declared {} ds = ofSites declared ds := by
  rw [addAll_eq]
  simp [ofSites, distinct]

end Annotations

/-- The record of a method, kind by kind. -/
def Record.ofSites (owner : Name) (m : Method) (handle : Nat) : Record where
  handle := handle
  declared := m.name
  owner := owner
  name := ((sites "method" m.decorators).getLast?.map fun d =>
    (MethodArguments.parse d.unquoted).nameOr m.name).getD m.name
  params := ((sites "method" m.decorators).getLast?.map fun d =>
    (MethodArguments.parse d.unquoted).toParams).getD []
  returns := ((sites "returns" m.decorators).getLast?.map fun d =>
    d.unquoted.map Param.parse).getD []
  emits := distinct ((sites "emit" m.decorators).flatMap Decorator.unquoted)
  isView := carries "view" m.decorators
  isPayable := carries "payable" m.decorators
  isOwnerOnly := carries "onlyOwner" m.decorators

theorem Record.ofMethod_eq_ofSites (owner : Name) (m : Method) (handle : Nat) :
    Record.ofMethod owner m handle = .ofSites owner m handle := by
  have emits : appendAllNew [] (distinct ((sites "emit" m.decorators).flatMap Decorator.unquoted)) =
      distinct ((sites "emit" m.decorators).flatMap Decorator.unquoted) :=
    appendAllNew_of_nodup (nodup_distinct _)
  unfold ofMethod Annotations.ofMethod
  rw [Annotations.addAll_eq_ofSites]
  simp [merge, blank, Annotations.ofSites, ofSites, emits, Function.comp_def]

/-! ### Reordering -/

/-- The decorators in another order, but those of `@method`, of `@returns` and of `@emit` in the
same. -/
structure Shuffles (ds ds' : List Decorator) : Prop where
  perm : ds.Perm ds'
  method : sites "method" ds = sites "method" ds'
  returns : sites "returns" ds = sites "returns" ds'
  emit : sites "emit" ds = sites "emit" ds'

theorem Shuffles.carries_eq {ds ds' : List Decorator} (shuffles : Shuffles ds ds') (kind : Text) :
    carries kind ds = carries kind ds' :=
  shuffles.perm.any_eq

theorem Record.ofSites_shuffled (owner : Name) (m : Method) (handle : Nat) {ds : List Decorator}
    (shuffles : Shuffles m.decorators ds) :
    Record.ofSites owner { m with decorators := ds } handle = .ofSites owner m handle := by
  simp only [ofSites, shuffles.method, shuffles.returns, shuffles.emit, shuffles.carries_eq]

/-! ### First visits -/

namespace Survey

variable {s : Survey} {ms stopped : List Method} {m : Method}

/-- Nothing is known of a method that is none of those visited. -/
theorem Tracks.unseen (tracked : s.Tracks ms ms) (new : ∀ m' ∈ ms, m'.key ≠ m.key) (owner : Name) :
    s.catalog.isRecorded (s.registry.add m owner).1 = false ∧
      s.catalog.heldFor (s.registry.add m owner).1 = {} := by
  have own := s.registry.add_hasHandle m owner
  have apart {m' : Method} {handle : Nat} (listed : m' ∈ ms)
      (has : s.registry.HasHandle m'.key handle) : handle ≠ (s.registry.add m owner).1 := by
    rintro rfl
    exact new m' listed ((Registry.hasHandle_add has m owner).key_eq own)
  constructor
  · rw [Catalog.isRecorded_eq_false]
    intro r member
    obtain ⟨m', listed, has, -⟩ := tracked.registered r member
    exact apart listed has
  · refine Catalog.heldFor_eq_empty fun entry member => ?_
    obtain ⟨m', listed, has⟩ := tracked.held entry member
    exact apart listed has

/-- What stops a first visit: a composite name of a decorator, or of the class if there is something
to be put on record. -/
theorem visitMethod_unseen_completes (tracked : s.Tracks ms ms) (new : ∀ m' ∈ ms, m'.key ≠ m.key)
    (owner : Name) :
    (s.visitMethod m owner).2 = .ok () ↔
      m.hasCompositeSite = false ∧ (m.isAnnotated = true → owner.isComposite = false) := by
  obtain ⟨unrecorded, -⟩ := tracked.unseen new owner
  have stops : s.catalog.stops (s.registry.add m owner).1 owner =
      fun d => d.name.isComposite || (owner.isComposite && d.isRecording) := by
    funext d
    simp [Catalog.stops, unrecorded]
  rw [visitMethod_eq, Catalog.visit_outcome, stops]
  unfold Method.hasCompositeSite Method.isAnnotated
  cases owner.isComposite <;> simp [forall_and]

theorem visitMethod_unseen {owner : Name} (tracked : s.Tracks ms ms)
    (new : ∀ m' ∈ ms, m'.key ≠ m.key) (ended : (s.visitMethod m owner).2 = .ok ()) :
    (s.visitMethod m owner).1.catalog.records = s.catalog.records ++
      if m.isAnnotated then [.ofSites owner m (s.registry.add m owner).1] else [] := by
  obtain ⟨unrecorded, nothing⟩ := tracked.unseen new owner
  rw [visitMethod_eq] at ended ⊢
  rcases visited : s.catalog.visit m (s.registry.add m owner).1 owner with ⟨c, outcome⟩
  rw [visited] at ended
  rw [Catalog.visit_ok (visited.trans (congrArg _ ended)), nothing]
  have annotated : (Annotations.addAll m.name {} m.decorators).isRecorded = m.isAnnotated :=
    Annotations.isRecorded_ofMethod m
  rw [Catalog.enter, unrecorded, annotated]
  cases m.isAnnotated with
  | true =>
    rw [← Record.ofMethod_eq_ofSites]
    rfl
  | false => simp

theorem Tracks.record?_eq_none (tracked : s.Tracks ms ms) (new : ∀ m' ∈ ms, m'.key ≠ m.key)
    (owner : Name) : s.catalog.record? (s.registry.add m owner).1 = none := by
  have unrecorded := Catalog.isRecorded_eq_false.mp (tracked.unseen new owner).1
  rw [Catalog.record?, List.find?_eq_none]
  intro r member
  have other := unrecorded r member
  simp only [decide_eq_true_eq]
  omega

theorem record?_unseen {owner : Name} (tracked : s.Tracks ms ms)
    (new : ∀ m' ∈ ms, m'.key ≠ m.key) (ended : (s.visitMethod m owner).2 = .ok ()) :
    (s.visitMethod m owner).1.catalog.record? (s.registry.add m owner).1 =
      if m.isAnnotated then some (.ofSites owner m (s.registry.add m owner).1) else none := by
  have missing := tracked.record?_eq_none new owner
  unfold Catalog.record? at missing ⊢
  rw [visitMethod_unseen tracked new ended, List.find?_append, missing]
  cases m.isAnnotated <;> simp [Record.ofSites]

/-- What comes after a composite name of a decorator is not read. -/
theorem visitMethod_cut {front : List Decorator} {d : Decorator} {rest : List Decorator}
    (split : m.decorators = front ++ d :: rest) (composite : d.name.isComposite = true)
    (s : Survey) (owner : Name) :
    s.visitMethod m owner = s.visitMethod { m with decorators := front ++ [d] } owner := by
  have stopped (handle : Nat) : s.catalog.stops handle owner d = true := by
    simp [Catalog.stops, composite]
  have visited (handle : Nat) : s.catalog.visit m handle owner =
      s.catalog.visit { m with decorators := front ++ [d] } handle owner := by
    unfold Catalog.visit
    rw [split]
    simp only [List.takeWhile_append, List.find?_append, List.find?_cons_of_pos (stopped handle),
      List.takeWhile_cons, stopped handle]
    rfl
  rw [visitMethod_eq, visitMethod_eq, visited]
  rfl

theorem visitMethod_unannotated (tracked : s.Tracks ms ms) (new : ∀ m' ∈ ms, m'.key ≠ m.key)
    (owner : Name) (bare : m.isAnnotated = false) :
    (s.visitMethod m owner).1.catalog.records = s.catalog.records := by
  obtain ⟨unrecorded, nothing⟩ := tracked.unseen new owner
  rw [visitMethod_eq]
  generalize (s.registry.add m owner).1 = handle at unrecorded nothing
  have plain {d : Decorator} (listed : d ∈ m.decorators) : d.isRecording = false :=
    Bool.eq_false_iff.mpr (List.any_eq_false.mp bare d listed)
  have unread {ds : List Decorator} (listed : ∀ d ∈ ds, d ∈ m.decorators) :
      (Annotations.addAll m.name (s.catalog.heldFor handle) ds).isRecorded = false := by
    rw [Annotations.isRecorded_addAll, nothing, List.any_eq_false.mpr fun d own => by
      simp [plain (listed d own)]]
    rfl
  rcases s.catalog.visit_cases m handle owner with
    ended | ⟨read, d, rest, split, stopped, -, ended⟩
  · rw [ended]
    simp [Catalog.enter, unrecorded, unread fun _ => id]
  · have composite : d.name.isComposite = true := by
      simpa [Catalog.stops, plain (d := d) (by simp [split])] using stopped
    have left :
        (Annotations.addAll m.name (s.catalog.heldFor handle) read).atOnce.isRecorded = false :=
      unread fun d own => by simp [split, own]
    rw [ended]
    simp [composite, Catalog.hold, Catalog.enter, unrecorded, left]

/-- Whatever was visited before, and however that ended, the first visit of a method comes to its
end unless a composite name stops it. It then adds the record of the method's sites if one of them is
a `@method` or `@returns`, and nothing else, and so it does with the decorators in another order.
A composite name of a decorator keeps all that follow it from being read, so that they put nothing
on record. -/
theorem first_visit_follows_sites (registry : Registry) {walks : List Walk}
    (new : ∀ m' ∈ walks.flatMap Walk.methods, m'.key ≠ m.key) (owner : Name) :
    (((after registry walks).visitMethod m owner).2 = .ok () ↔
      m.hasCompositeSite = false ∧ (m.isAnnotated = true → owner.isComposite = false)) ∧
    (((after registry walks).visitMethod m owner).2 ≠ .ok () →
      ((after registry walks).visitMethod m owner).2 = .error .compositeName) ∧
    (((after registry walks).visitMethod m owner).2 = .ok () →
      ∃ handle, ((after registry walks).visitMethod m owner).1.registry.HasHandle m.key handle ∧
        ((after registry walks).visitMethod m owner).1.catalog.records =
          (after registry walks).catalog.records ++
            (if m.isAnnotated then [.ofSites owner m handle] else []) ∧
        ((after registry walks).visitMethod m owner).1.catalog.record? handle =
          (if m.isAnnotated then some (.ofSites owner m handle) else none) ∧
        ∀ ds, Shuffles m.decorators ds →
          ((after registry walks).visitMethod { m with decorators := ds } owner).2 = .ok () ∧
          ((after registry walks).visitMethod { m with decorators := ds } owner).1.catalog.records =
            ((after registry walks).visitMethod m owner).1.catalog.records) ∧
    ∀ front d rest, m.decorators = front ++ d :: rest → d.name.isComposite = true →
      (after registry walks).visitMethod m owner =
        (after registry walks).visitMethod { m with decorators := front ++ [d] } owner ∧
      (front.any Decorator.isRecording = false →
        ((after registry walks).visitMethod m owner).1.catalog.records =
          (after registry walks).catalog.records ∧
        ∃ handle, ((after registry walks).visitMethod m owner).1.registry.HasHandle m.key handle ∧
          ((after registry walks).visitMethod m owner).1.catalog.record? handle = none) := by
  have tracked : (after registry walks).Tracks (walks.flatMap Walk.methods)
      (walks.flatMap Walk.methods) := after_tracks registry (fun m listed _ => listed)
    fun m owner listed _ => List.mem_flatMap.mpr ⟨_, listed, List.mem_singleton.mpr rfl⟩
  generalize after registry walks = s at tracked
  refine ⟨visitMethod_unseen_completes tracked new owner, fun failed => ?_, fun ended => ?_, ?_⟩
  · rw [visitMethod_eq, Catalog.visit_outcome] at failed ⊢
    split at failed
    · rename_i stopped
      rw [if_pos stopped]
    · exact absurd rfl failed
  · refine ⟨(s.registry.add m owner).1, s.registry.add_hasHandle m owner,
      visitMethod_unseen tracked new ended, record?_unseen tracked new ended, ?_⟩
    intro ds shuffles
    let shuffled : Method := { m with decorators := ds }
    have annotated : shuffled.isAnnotated = m.isAnnotated := shuffles.perm.symm.any_eq
    have composite : shuffled.hasCompositeSite = m.hasCompositeSite := shuffles.perm.symm.any_eq
    have again : (s.visitMethod shuffled owner).2 = .ok () := by
      have conditions := (visitMethod_unseen_completes tracked new owner).mp ended
      rw [← annotated, ← composite] at conditions
      exact (visitMethod_unseen_completes (m := shuffled) tracked new owner).mpr conditions
    refine ⟨again, ?_⟩
    rw [visitMethod_unseen tracked new ended, visitMethod_unseen (m := shuffled) tracked new again,
      annotated, Record.ofSites_shuffled owner m _ shuffles]
    rfl
  · intro front d rest split composite
    have cut := visitMethod_cut split composite s owner
    refine ⟨cut, fun bare => ?_⟩
    have other : d.isRecording = false := by
      obtain ⟨name, args⟩ := d
      cases name <;> simp_all [Json.isComposite, Decorator.isRecording, Json.isText]
    have kept : (s.visitMethod m owner).1.catalog.records = s.catalog.records := by
      rw [cut]
      refine visitMethod_unannotated (m := { m with decorators := front ++ [d] }) tracked new owner ?_
      simp [Method.isAnnotated, bare, other]
    refine ⟨kept, (s.registry.add m owner).1, s.registry.add_hasHandle m owner, ?_⟩
    unfold Catalog.record?
    rw [kept]
    exact tracked.record?_eq_none new owner

/-- Two `@method`, and an event that two `@emit` name. -/
def settlement : Method where
  key := 3
  name := .str "settle"
  decorators := [⟨.str "emit", ["Opened", "Settled"]⟩, ⟨.str "method", []⟩, ⟨.str "view", []⟩,
    ⟨.str "method", ["'close'"]⟩, ⟨.str "emit", ["Settled", "Closed"]⟩]

/-- A method of the same arena whose visit the name of its class stops. -/
def opening : Walk :=
  .method { key := 5, name := .str "open", decorators := [⟨.str "returns", []⟩] } (.arr [])

theorem first_visit_of_settlement :
    (∀ m' ∈ [opening].flatMap Walk.methods, m'.key ≠ settlement.key) ∧
    ((after {} [opening]).visitMethod settlement (.str "Till")).1.catalog.records =
      (after {} [opening]).catalog.records ++ [.ofSites (.str "Till") settlement 1] ∧
    (Record.ofSites (.str "Till") settlement 1).name = .str "close" ∧
    (Record.ofSites (.str "Till") settlement 1).emits =
      [("Opened" : Text), "Settled", "Closed"] := by
  have new : ∀ m' ∈ [opening].flatMap Walk.methods, m'.key ≠ settlement.key := by decide
  obtain ⟨completes, -, visited, -⟩ := first_visit_follows_sites {} new (.str "Till")
  obtain ⟨handle, has, records, -⟩ := visited (completes.mpr (by decide))
  have one : handle = 1 := by
    have held : some 1 = some handle := has.1
    exact (Option.some.inj held).symm
  subst one
  refine ⟨new, records, ?_, ?_⟩
  · decide +kernel
  · decide +kernel

/-- The name of the first decorator is composite. -/
def veiled : Method where
  key := 0
  name := .str "mint"
  decorators := [⟨.arr [], []⟩, ⟨.str "method", []⟩]

/-- The first decorator keeps the second from being read. -/
theorem veiled_is_not_recorded :
    veiled.isAnnotated = true ∧
      ((after {} []).visitMethod veiled (.str "Mint")).2 = .error .compositeName ∧
      ((after {} []).visitMethod veiled (.str "Mint")).1.catalog.record? 0 = none := by
  decide

end Survey

end ContractAbi
