import ContractAbi.Proofs.Merging

/-!
# Visiting a class again

A visit enters what the decorators of a method say, and a catalog that has taken all of it in stays
as it is. So a class that was the last of its name to be visited may be visited again, whatever has
been visited since: the records, the classes and the events set aside stay, and the event of the
class itself is entered once more.
-/

namespace ContractAbi

/-! ### Annotations that add nothing -/

namespace Annotations

/-- Whoever knows the second annotations learns nothing from the first. -/
structure Within (a b : Annotations) : Prop where
  method : a.method = b.method
  returns : a.returns = b.returns
  emits : a.emits ⊆ b.emits
  isView : a.isView = true → b.isView = true
  isPayable : a.isPayable = true → b.isPayable = true
  isOwnerOnly : a.isOwnerOnly = true → b.isOwnerOnly = true

theorem within_self (a : Annotations) : a.Within a :=
  ⟨rfl, rfl, List.Subset.refl _, id, id, id⟩

theorem Within.isRecorded_eq {a b : Annotations} (within : a.Within b) :
    a.isRecorded = b.isRecorded := by
  rw [isRecorded, within.method, within.returns, isRecorded]

variable {declared : Name} {a : Annotations} {ds : List Decorator}

theorem eq_none_of_isRecorded (rest : a.isRecorded = false) :
    a.method = none ∧ a.returns = none := by
  simpa [isRecorded] using rest

/-- Decorators that were read once may be read again. -/
theorem addAll_again (rest : a.isRecorded = false) :
    addAll declared (addAll declared a ds).atLast ds = addAll declared a ds := by
  obtain ⟨method, returns⟩ := eq_none_of_isRecorded rest
  have emits (xs : List Text) :
      appendAllNew (appendAllNew a.emits xs) xs = appendAllNew a.emits xs :=
    appendAllNew_of_subset fun x member => mem_appendAllNew.mpr (Or.inr member)
  rw [addAll_eq, addAll_eq]
  simp [atLast, method, returns, emits]

theorem addAll_within (rest : a.isRecorded = false) :
    (addAll declared {} ds).Within (addAll declared a ds) := by
  obtain ⟨method, returns⟩ := eq_none_of_isRecorded rest
  rw [addAll_eq, addAll_eq]
  refine ⟨by simp [method], by simp [returns], ?_, ?_, ?_, ?_⟩
  · intro x member
    have own : x ∈ (sites "emit" ds).flatMap Decorator.unquoted := by simpa using member
    exact mem_appendAllNew.mpr (Or.inr own)
  all_goals
    intro flag
    simp_all

end Annotations

theorem Record.merge_within (r : Record) {a b : Annotations} (within : a.Within b) :
    (r.merge b).merge a = r.merge b := by
  have emits : appendAllNew (appendAllNew r.emits b.emits) a.emits = appendAllNew r.emits b.emits :=
    appendAllNew_of_subset fun x member => mem_appendAllNew.mpr (Or.inr (within.emits member))
  have flag {x y z : Bool} (implies : z = true → y = true) : (x || y || z) = (x || y) := by
    cases x <;> cases y <;> cases z <;> simp_all
  unfold merge
  simp only [emits, within.method, within.returns, flag within.isView, flag within.isPayable,
    flag within.isOwnerOnly]
  cases b.method <;> cases b.returns <;> rfl

/-! ### Catalogs that have taken a method in -/

/-- The decorators before the first one that stops every visit. -/
def Method.readable (m : Method) : List Decorator :=
  m.decorators.takeWhile (!·.name.isComposite)

namespace Catalog

variable {c : Catalog} {m m' : Method} {handle handle' : Nat} {owner : Name} {a b : Annotations}

/-- What a visit of the method finds, with what was held for it. -/
def reading (c : Catalog) (m : Method) (handle : Nat) : Annotations :=
  Annotations.addAll m.name (c.heldFor handle) m.readable

/-- The part of it that the visit enters. -/
def entry (c : Catalog) (m : Method) (handle : Nat) : Annotations :=
  if m.hasCompositeSite then (c.reading m handle).atOnce else c.reading m handle

/-- What is held after the visit. -/
def heldNext (c : Catalog) (m : Method) (handle : Nat) : Table Nat Annotations :=
  if m.hasCompositeSite then c.held.insert handle (c.reading m handle).atLast
  else c.held.erase handle

theorem stops_of_plain (c : Catalog) (handle : Nat) (plain : owner.isComposite = false) :
    c.stops handle owner = (·.name.isComposite) := by
  funext d
  simp [stops, plain]

theorem visit_of_plain (plain : owner.isComposite = false) :
    (c.visit m handle owner).1 =
      { c.enter m handle owner (c.entry m handle) with held := c.heldNext m handle } := by
  unfold visit entry heldNext reading Method.readable Method.hasCompositeSite
  rw [c.stops_of_plain handle plain]
  cases found : m.decorators.find? (·.name.isComposite) with
  | none =>
    have passed : m.decorators.any (·.name.isComposite) = false := by simpa using found
    rw [passed]
    rfl
  | some d =>
    have composite := (List.find?_eq_some_iff_append.mp found).1
    have stopped : m.decorators.any (·.name.isComposite) = true :=
      List.any_eq_true.mpr ⟨d, List.mem_of_find?_eq_some found, composite⟩
    rw [stopped]
    dsimp only
    rw [if_pos composite]
    rfl

/-- A visit of the method would find nothing that the catalog does not have. -/
structure Absorbs (c : Catalog) (m : Method) (handle : Nat) : Prop where
  held : c.held.get? handle =
    if m.hasCompositeSite then some (c.reading m handle).atLast else none
  recorded : ∀ r ∈ c.records, r.handle = handle → r.merge (c.entry m handle) = r
  unrecorded : c.isRecorded handle = false →
    (c.entry m handle).isRecorded = false ∧ (c.entry m handle).emits ⊆ c.strayEmits

theorem visit_of_absorbs (plain : owner.isComposite = false) (absorbs : c.Absorbs m handle) :
    (c.visit m handle owner).1 = c := by
  have entered : c.enter m handle owner (c.entry m handle) = c := by
    unfold enter
    cases known : c.isRecorded handle with
    | true =>
      have same : (c.records.map fun r =>
          if r.handle = handle then r.merge (c.entry m handle) else r) = c.records := by
        refine (List.map_congr_left fun r member => ?_).trans (List.map_id _)
        split
        · rename_i own
          exact absorbs.recorded r member own
        · rfl
      rw [if_pos rfl, same]
    | false =>
      obtain ⟨nothing, emits⟩ := absorbs.unrecorded known
      simp [nothing, appendAllNew_of_subset emits]
  have held : c.heldNext m handle = c.held := by
    have before := absorbs.held
    unfold heldNext
    split at before
    · rename_i composite
      rw [if_pos composite, Table.insert_of_get? before]
    · rename_i complete
      rw [if_neg complete, Table.erase_of_get? before]
  rw [visit_of_plain plain, entered, held]

theorem isRecorded_of_enter (missing : (c.enter m handle' owner a).isRecorded handle = false) :
    c.isRecorded handle = false := by
  rw [isRecorded_eq_false] at missing ⊢
  intro r member
  obtain ⟨r', present, same⟩ := (enter_enters c m handle' owner a).exists_same member
  exact same ▸ missing r' present

theorem merge_of_mem_enter (within : a.Within b) {r : Record}
    (member : r ∈ (c.enter m handle owner b).records) (own : r.handle = handle) :
    r.merge a = r := by
  unfold enter at member
  split at member
  · obtain ⟨old, -, rfl⟩ := List.mem_map.mp member
    by_cases here : old.handle = handle
    · rw [if_pos here]
      exact old.merge_within within
    · rw [if_neg here] at own
      exact absurd own here
  · rename_i unrecorded
    have others := isRecorded_eq_false.mp (by simpa using unrecorded)
    split at member
    · rcases List.mem_append.mp member with old | new
      · exact absurd own (others r old)
      · rw [List.mem_singleton.mp new]
        exact Record.merge_within _ within
    · exact absurd own (others r member)

theorem stray_of_enter (within : a.Within b)
    (missing : (c.enter m handle owner b).isRecorded handle = false) :
    a.isRecorded = false ∧ a.emits ⊆ (c.enter m handle owner b).strayEmits := by
  have unrecorded := isRecorded_of_enter missing
  unfold enter at missing ⊢
  rw [unrecorded, if_neg (by simp)] at missing ⊢
  cases recorded : b.isRecorded with
  | true =>
    -- The method would have been put on record.
    rw [recorded, if_pos rfl, isRecorded_eq_false] at missing
    exact absurd rfl (missing ((Record.blank m handle owner).merge b)
      (List.mem_append_right _ (List.mem_singleton.mpr rfl)))
  | false =>
    rw [if_neg (by simp)]
    refine ⟨within.isRecorded_eq.trans recorded, fun x member => ?_⟩
    exact mem_appendAllNew.mpr (Or.inr (within.emits member))

theorem get?_heldNext (c : Catalog) (m : Method) (handle handle' : Nat) :
    (c.heldNext m handle').get? handle =
      if handle = handle' then
        if m.hasCompositeSite then some (c.reading m handle').atLast else none
      else c.held.get? handle := by
  unfold heldNext
  by_cases here : handle = handle'
  · subst here
    rw [if_pos rfl]
    split
    · exact Table.get?_insert_self ..
    · rw [Table.get?_erase, if_pos rfl]
  · rw [if_neg here]
    split
    · exact Table.get?_insert_of_ne _ _ here
    · rw [Table.get?_erase, if_neg here]

/-- A visit takes the method in, however it ends. -/
theorem visit_absorbs (rest : c.HoldsRest) (plain : owner.isComposite = false) :
    (c.visit m handle owner).1.Absorbs m handle := by
  rw [visit_of_plain plain]
  let after : Catalog :=
    { c.enter m handle owner (c.entry m handle) with held := c.heldNext m handle }
  have held : after.held.get? handle =
      if m.hasCompositeSite then some (c.reading m handle).atLast else none :=
    (c.get?_heldNext m handle handle).trans (if_pos rfl)
  -- A visit that was stopped reads the same again, one that came to its end forgets what was held.
  have again : (after.entry m handle).Within (c.entry m handle) ∧
      (m.hasCompositeSite = true → after.reading m handle = c.reading m handle) := by
    have nothing := rest.heldFor handle
    unfold entry
    cases composite : m.hasCompositeSite with
    | true =>
      rw [composite, if_pos rfl] at held
      have same : after.reading m handle = c.reading m handle := by
        unfold reading heldFor
        rw [held, Option.getD_some]
        exact Annotations.addAll_again nothing
      rw [if_pos rfl, if_pos rfl, same]
      exact ⟨Annotations.within_self _, fun _ => rfl⟩
    | false =>
      rw [composite, if_neg (by simp)] at held
      refine ⟨?_, nofun⟩
      rw [if_neg (by simp), if_neg (by simp)]
      unfold reading
      have forgotten : after.heldFor handle = {} := by
        unfold heldFor
        rw [held, Option.getD_none]
      rw [forgotten]
      exact Annotations.addAll_within nothing
  refine ⟨?_, fun r => merge_of_mem_enter again.1, stray_of_enter again.1⟩
  rw [held]
  split
  · rename_i composite
    rw [again.2 composite]
  · rfl

theorem strayEmits_subset_enter (c : Catalog) (m : Method) (handle : Nat) (owner : Name)
    (a : Annotations) : c.strayEmits ⊆ (c.enter m handle owner a).strayEmits := by
  unfold enter
  split
  · exact List.Subset.refl _
  · split
    · exact List.Subset.refl _
    · exact fun x member => mem_appendAllNew.mpr (Or.inl member)

/-- Visits of other methods leave it so. -/
theorem Absorbs.visit_other (absorbs : c.Absorbs m handle) (plain : owner.isComposite = false)
    (other : handle ≠ handle') : (c.visit m' handle' owner).1.Absorbs m handle := by
  rw [visit_of_plain plain]
  let after : Catalog :=
    { c.enter m' handle' owner (c.entry m' handle') with held := c.heldNext m' handle' }
  have held : after.held.get? handle = c.held.get? handle :=
    (c.get?_heldNext m' handle handle').trans (if_neg other)
  have reading : after.reading m handle = c.reading m handle := by
    unfold Catalog.reading heldFor
    rw [held]
  have entry : after.entry m handle = c.entry m handle := by
    unfold Catalog.entry
    rw [reading]
  have old {r : Record} (member : r ∈ after.records) (own : r.handle = handle) : r ∈ c.records := by
    rcases mem_records_enter member with old | ⟨old, -, same, rfl⟩ | rfl
    · exact old
    · exact absurd (own.symm.trans same) other
    · exact absurd own.symm other
  refine ⟨?_, ?_, ?_⟩
  · show after.held.get? handle =
      if m.hasCompositeSite then some (after.reading m handle).atLast else none
    rw [held, reading]
    exact absorbs.held
  · intro r member own
    show r.merge (after.entry m handle) = r
    rw [entry]
    exact absorbs.recorded r (old member own) own
  · intro missing
    show (after.entry m handle).isRecorded = false ∧
      (after.entry m handle).emits ⊆ after.strayEmits
    obtain ⟨nothing, emits⟩ := absorbs.unrecorded (isRecorded_of_enter missing)
    rw [entry]
    exact ⟨nothing, List.Subset.trans emits (strayEmits_subset_enter ..)⟩

/-- Classes and events have no part in it. -/
theorem Absorbs.aside (absorbs : c.Absorbs m handle) (classes : Table Json Visit)
    (events : List Event) : Absorbs { c with classes, events } m handle :=
  ⟨absorbs.held, absorbs.recorded, absorbs.unrecorded⟩

end Catalog

/-! ### Classes whose methods have been taken in -/

/-- The methods that a visit reaches: it goes no further than one that stops it. -/
def reached : List Method → List Method
  | [] => []
  | m :: ms => if m.hasCompositeSite then [m] else m :: reached ms

theorem mem_of_mem_reached {ms : List Method} {m : Method} (member : m ∈ reached ms) :
    m ∈ ms := by
  induction ms with
  | nil => cases member
  | cons first ms ih =>
    unfold reached at member
    split at member
    · exact List.mem_singleton.mp member ▸ List.mem_cons_self
    · rcases List.mem_cons.mp member with rfl | later
      · exact List.mem_cons_self
      · exact List.mem_cons_of_mem _ (ih later)

namespace Survey

variable {s : Survey} {m m' : Method} {owner : Name} {ms : List Method}

def Absorbs (s : Survey) (m : Method) : Prop :=
  ∃ handle, s.registry.HasHandle m.key handle ∧ s.catalog.Absorbs m handle

theorem visitMethod_of_absorbs (plain : owner.isComposite = false) (absorbs : s.Absorbs m) :
    (s.visitMethod m owner).1 = s := by
  obtain ⟨handle, has, taken⟩ := absorbs
  rw [visitMethod_eq, Registry.add_of_hasHandle has]
  dsimp only
  rw [Catalog.visit_of_absorbs plain taken]

theorem visitMethod_absorbs (rest : s.catalog.HoldsRest) (plain : owner.isComposite = false) :
    (s.visitMethod m owner).1.Absorbs m :=
  ⟨_, Registry.add_hasHandle .., Catalog.visit_absorbs rest plain⟩

theorem Absorbs.visitMethod (absorbs : s.Absorbs m) (rest : s.catalog.HoldsRest)
    (plain : owner.isComposite = false) (tell : m.key = m'.key → m = m') :
    (s.visitMethod m' owner).1.Absorbs m := by
  by_cases same : m = m'
  · exact same ▸ visitMethod_absorbs rest plain
  · obtain ⟨handle, has, taken⟩ := absorbs
    have has := Registry.hasHandle_add has m' owner
    refine ⟨handle, has, taken.visit_other plain ?_⟩
    rintro rfl
    exact same (tell (has.key_eq (s.registry.add_hasHandle m' owner)))

theorem visitMethods_cons_of_plain (plain : owner.isComposite = false) :
    s.visitMethods owner (m :: ms) =
      if m.hasCompositeSite then ((s.visitMethod m owner).1, .error .compositeName)
      else (s.visitMethod m owner).1.visitMethods owner ms := by
  have outcome : (s.visitMethod m owner).2 =
      if m.hasCompositeSite then .error .compositeName else .ok () := by
    rw [visitMethod_eq, Catalog.visit_outcome, Catalog.stops_of_plain _ _ plain]
    rfl
  rw [visitMethods_cons]
  rcases visited : s.visitMethod m owner with ⟨next, result⟩
  rw [visited] at outcome
  obtain rfl : result = _ := outcome
  split <;> rfl

theorem visitMethods_absorbs (rest : s.catalog.HoldsRest) (plain : owner.isComposite = false)
    (tell : KeysTell ms) : ∀ m ∈ reached ms, (s.visitMethods owner ms).1.Absorbs m := by
  induction ms generalizing s with
  | nil => nofun
  | cons first ms ih =>
    intro m member
    have resting : (s.visitMethod first owner).1.catalog.HoldsRest := rest.visit first _ owner
    have taken : (s.visitMethod first owner).1.Absorbs first := visitMethod_absorbs rest plain
    unfold reached at member
    rw [visitMethods_cons_of_plain plain]
    split at member
    · rename_i stopped
      rw [if_pos stopped, List.mem_singleton.mp member]
      exact taken
    · rename_i passed
      rw [if_neg passed]
      rcases List.mem_cons.mp member with rfl | later
      · -- The visits of the other methods keep it, as long as nothing is held that goes on record.
        let kept (s : Survey) : Prop := s.catalog.HoldsRest ∧ s.Absorbs m
        refine (visitMethods_preserves (P := kept) ?_ ⟨resting, taken⟩).2
        intro m' listed s both
        have differ := tell m List.mem_cons_self m' (List.mem_cons_of_mem _ listed)
        exact ⟨both.1.visit m' _ owner, both.2.visitMethod both.1 plain differ⟩
      · exact ih resting (tell.subset (List.subset_cons_self ..)) m later

theorem visitMethods_of_absorbs (plain : owner.isComposite = false)
    (absorbs : ∀ m ∈ reached ms, s.Absorbs m) : (s.visitMethods owner ms).1 = s := by
  induction ms with
  | nil => rfl
  | cons first ms ih =>
    have first_absorbed : first ∈ reached (first :: ms) := by
      unfold reached
      split <;> exact List.mem_cons_self
    have same := visitMethod_of_absorbs plain (absorbs first first_absorbed)
    rw [visitMethods_cons_of_plain plain, same]
    split
    · rfl
    · rename_i passed
      refine ih fun m member => absorbs m ?_
      rw [reached, if_neg passed]
      exact List.mem_cons_of_mem _ member

/-! ### Classes that are known -/

/-- The catalog has the class under its name, where it stands, and has taken in the methods that a
visit reaches. -/
structure Knows (v : Contract) (s : Survey) : Prop where
  rest : s.catalog.HoldsRest
  met : ∃ first, s.catalog.classes.get? v.name.key = some ⟨first, v.site, v.path⟩
  methods : ∀ event, v.declaration.event? v.path = .ok event →
    ∀ m ∈ reached v.declaration.methods, s.Absorbs m

variable {v w : Contract}

theorem visitClass_knows (rest : s.catalog.HoldsRest) (plain : v.name.isComposite = false)
    (tell : KeysTell v.declaration.methods) :
    (s.visitClass v.site v.declaration v.path).1.Knows v := by
  have met (events : List Event) :
      ∃ first, { s.catalog.meet v.name v.site v.path with events }.classes.get? v.name.key =
        some ⟨first, v.site, v.path⟩ := ⟨_, Table.get?_insert_self ..⟩
  unfold visitClass
  rw [show v.declaration.name.isComposite = false from plain]
  cases found : v.declaration.event? v.path with
  | error fault =>
    refine ⟨rest, met s.catalog.events, fun event declared => ?_⟩
    rw [found] at declared
    cases declared
  | ok event =>
    let start : Survey := { s with catalog := { s.catalog.meet v.name v.site v.path with
      events := s.catalog.events ++ event.toList } }
    have kept : (start.visitMethods v.name v.declaration.methods).1.catalog.HoldsRest ∧
        (start.visitMethods v.name v.declaration.methods).1.catalog.classes =
          start.catalog.classes := by
      refine visitMethods_preserves (P := fun s => s.catalog.HoldsRest ∧
        s.catalog.classes = start.catalog.classes) (fun m _ s both => ?_) ⟨rest, rfl⟩
      exact ⟨both.1.visit m _ _, (s.catalog.visit_classes m _ _).trans both.2⟩
    refine ⟨kept.1, ?_, fun _ _ => visitMethods_absorbs (s := start) rest plain tell⟩
    obtain ⟨first, here⟩ := met start.catalog.events
    exact ⟨first, kept.2 ▸ here⟩

theorem Knows.visitClass (knows : s.Knows v) (other : w.name.key ≠ v.name.key)
    (tell : KeysTell (v.declaration.methods ++ w.declaration.methods)) :
    (s.visitClass w.site w.declaration w.path).1.Knows v := by
  obtain ⟨first, met⟩ := knows.met
  refine visitClass_preserves (P := Knows v) ?_ ?_ (fun _ => id) knows
  · intro plain events
    refine ⟨knows.rest, ⟨first, ?_⟩, fun event found m member => ?_⟩
    · exact (Table.get?_insert_of_ne _ _ other.symm).trans met
    · obtain ⟨handle, has, taken⟩ := knows.methods event found m member
      exact ⟨handle, has, taken.aside _ events⟩
  · intro plain m' listed s knows
    refine ⟨knows.rest.visit m' _ _, ?_, fun event found m member => ?_⟩
    · rw [visitMethod_eq]
      exact (s.catalog.visit_classes m' _ _).symm ▸ knows.met
    · refine (knows.methods event found m member).visitMethod knows.rest plain ?_
      exact tell m (List.mem_append_left _ (mem_of_mem_reached member)) m'
        (List.mem_append_right _ listed)

end Survey

namespace Contract

def walk (v : Contract) : Walk :=
  .ofClass v.site v.declaration v.path

/-- The event that a visit of the class enters, if it gets that far. -/
def announced (v : Contract) : List Event :=
  if v.name.isComposite then []
  else match v.declaration.event? v.path with
    | .ok event => event.toList
    | .error _ => []

end Contract

namespace Survey

variable {s : Survey} {v : Contract}

theorem visitClass_of_knows (knows : s.Knows v) (plain : v.name.isComposite = false) :
    (s.visitClass v.site v.declaration v.path).1 =
      { s with catalog.events := s.catalog.events ++ v.announced } := by
  have met : s.catalog.meet v.declaration.name v.site v.path = s.catalog := by
    obtain ⟨first, known⟩ := knows.met
    change s.catalog.classes.get? v.declaration.name.key = _ at known
    unfold Catalog.meet
    rw [known]
    exact congrArg (fun classes => { s.catalog with classes }) (Table.insert_of_get? known)
  have own : v.declaration.name.isComposite = false := plain
  unfold visitClass Contract.announced
  rw [met, own, plain]
  cases found : v.declaration.event? v.path with
  | error fault => simp
  | ok event =>
    refine visitMethods_of_absorbs plain fun m member => ?_
    obtain ⟨handle, has, taken⟩ := knows.methods event found m member
    exact ⟨handle, has, taken.aside _ _⟩

theorem after_holdsRest (registry : Registry) (vs : List Contract) :
    (after registry (vs.map Contract.walk)).catalog.HoldsRest := by
  let ms := (vs.map Contract.walk).flatMap Walk.methods
  have tracked : (after registry (vs.map Contract.walk)).Tracks ms ms := by
    refine after_tracks registry (fun m member _ => member) fun m owner member => ?_
    obtain ⟨v, -, same⟩ := List.mem_map.mp member
    cases same
  exact tracked.rest

theorem Knows.walkAll {later : List Contract} (knows : s.Knows v)
    (last : ∀ w ∈ later, w.name.key ≠ v.name.key)
    (tell : ∀ w ∈ later, KeysTell (v.declaration.methods ++ w.declaration.methods)) :
    (s.walkAll (later.map Contract.walk)).Knows v := by
  induction later generalizing s with
  | nil => exact knows
  | cons w later ih =>
    rw [List.forall_mem_cons] at last tell
    exact ih (knows.visitClass last.1 tell.1) last.2 tell.2

/-- Whatever classes have been visited, another visit of the last one of its name, where it stands,
changes nothing but the events: one that the class declares is entered again. -/
theorem visitClass_again (registry : Registry) (before later : List Contract) (v : Contract)
    (tell : KeysTell ((before ++ v :: later).flatMap (·.declaration.methods)))
    (last : ∀ w ∈ later, w.name.key ≠ v.name.key) :
    let s := after registry ((before ++ v :: later).map Contract.walk)
    (s.visitClass v.site v.declaration v.path).1 =
      { s with catalog.events := s.catalog.events ++ v.announced } := by
  intro s
  cases plain : v.name.isComposite with
  | true =>
    have composite : v.declaration.name.isComposite = true := plain
    simp [visitClass, Contract.announced, plain, composite]
  | false =>
    have listed {w : Contract} (member : w ∈ before ++ v :: later) :
        w.declaration.methods ⊆ (before ++ v :: later).flatMap (·.declaration.methods) :=
      fun m own => List.mem_flatMap.mpr ⟨w, member, own⟩
    have own := listed (List.mem_append_right before List.mem_cons_self)
    have visited := visitClass_knows (after_holdsRest registry before) plain (tell.subset own)
    have known := visited.walkAll last fun w member => tell.subset <| List.append_subset.mpr
      ⟨own, listed (List.mem_append_right _ (List.mem_cons_of_mem v member))⟩
    have split : s = ((after registry (before.map Contract.walk)).visitClass v.site v.declaration
        v.path).1.walkAll (later.map Contract.walk) := by
      simp only [s, after, walkAll, List.map_append, List.foldl_append, List.map_cons,
        List.foldl_cons]
      rfl
    exact visitClass_of_knows (split ▸ known) plain

def oldVault : Contract where
  site := ⟨0, 0⟩
  path := .str "old.ts"
  declaration := { name := .str "Vault", decorators := [], base := .null, members := [
    .method { key := 0, name := .str "open", decorators := [⟨.str "method", []⟩] }] }

/-- Declares an event, sets one aside, and is stopped by a decorator of its third method. -/
def vault : Contract where
  site := ⟨1, 0⟩
  path := .str "vault.ts"
  declaration := {
    name := .str "Vault"
    decorators := [⟨.str "event", ["'Locked'"]⟩]
    base := .null
    members := [
      .field ⟨.str "until", .str " u64 ", []⟩,
      .method { key := 1, name := .str "lock", decorators := [
        ⟨.str "emit", ["'Locked'", "'Moved'"]⟩, ⟨.str "method", ["'u64'"]⟩] },
      .method { key := 2, name := .str "count", decorators := [⟨.str "emit", ["'Counted'"]⟩] },
      .method { key := 3, name := .str "seal", decorators := [⟨.str "payable", []⟩,
        ⟨.str "returns", ["'bool'"]⟩, ⟨.arr [], []⟩, ⟨.str "view", []⟩] },
      .method { key := 4, name := .str "melt", decorators := [⟨.str "method", []⟩] }] }

def vaultKey : Contract where
  site := ⟨1, 1⟩
  path := .str "vault.ts"
  declaration := { name := .str "Key", decorators := [], base := .null, members := [
    .method { key := 5, name := .str "turn", decorators := [⟨.str "method", []⟩] }] }

theorem visit_of_vault_again :
    let s := after {} ([oldVault, vault, vaultKey].map Contract.walk)
    vault.announced =
        [⟨.str "Locked", .str "Vault", .str "vault.ts", [(.str "until", "u64")]⟩] ∧
      s.catalog.records.map (·.declared) = [.str "open", .str "lock", .str "seal", .str "turn"] ∧
      s.catalog.strayEmits = [("Counted" : Text)] ∧
      (s.visitClass vault.site vault.declaration vault.path).1 =
        { s with catalog.events := s.catalog.events ++ vault.announced } := by
  refine ⟨by decide +kernel, by decide +kernel, by decide +kernel, ?_⟩
  have tell : KeysTell ([oldVault, vault, vaultKey].flatMap (·.declaration.methods)) := by
    unfold KeysTell
    decide +kernel
  exact visitClass_again {} [oldVault] [vaultKey] vault tell (by decide)

/-- A class that only declares an event. -/
def minted : Contract where
  site := ⟨0, 0⟩
  path := .str ""
  declaration := {
    name := .str "Minted"
    decorators := [⟨.str "event", []⟩]
    base := .null
    members := [.field ⟨.str "amount", .str "u256", []⟩] }

theorem event_of_minted_is_entered_twice :
    (after {} [minted.walk]).catalog.events = minted.announced ∧ minted.announced.length = 1 ∧
      (after {} [minted.walk, minted.walk]).catalog.events =
        minted.announced ++ minted.announced := by
  decide +kernel

end Survey

end ContractAbi
