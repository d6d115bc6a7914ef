import ContractAbi.Proofs.Ledger

/-!
# The books that a survey keeps

Methods, classes and sources are visited in any order and any number of times, and a fault may stop
a visit. A declaration still has one record at the most, which stands with the records of its class
and holds the declaration's handle: `Books.isConsistent`.
-/

namespace ContractAbi

/-! ### What a visit can do -/

/-- A decorator of the method stops every visit. -/
def Method.hasCompositeSite (m : Method) : Bool :=
  m.decorators.any (·.name.isComposite)

namespace Catalog

/-- A visit comes to its end, or it is stopped by the first decorator that can stop it. -/
theorem visit_cases (c : Catalog) (m : Method) (handle : Nat) (owner : Name) :
    c.visit m handle owner =
        ({ c.enter m handle owner (Annotations.addAll m.name (c.heldFor handle) m.decorators) with
          held := c.held.erase handle }, .ok ()) ∨
      ∃ read d rest, m.decorators = read ++ d :: rest ∧ c.stops handle owner d = true ∧
        (∀ e ∈ read, c.stops handle owner e = false) ∧
        c.visit m handle owner =
          (let held := c.hold m handle owner (Annotations.addAll m.name (c.heldFor handle) read)
            if d.name.isComposite then held else held.startRecord m handle owner d,
            .error .compositeName) := by
  cases found : m.decorators.find? (c.stops handle owner) with
  | none =>
    have outcome : (c.visit m handle owner).2 = .ok () := by
      rw [visit_outcome, if_neg]
      simpa using found
    have ended : c.visit m handle owner = ((c.visit m handle owner).1, .ok ()) :=
      Prod.ext rfl outcome
    exact Or.inl (ended.trans (congrArg (·, _) (visit_ok ended)))
  | some d =>
    obtain ⟨stopped, read, rest, split, passed⟩ := List.find?_eq_some_iff_append.mp found
    have passed : ∀ e ∈ read, c.stops handle owner e = false := by simpa using passed
    have reached : m.decorators.takeWhile (!c.stops handle owner ·) = read := by
      rw [split, List.takeWhile_append_of_pos (by simpa using passed), List.takeWhile_cons_of_neg]
      · simp
      · simp [stopped]
    refine Or.inr ⟨read, d, rest, split, stopped, passed, ?_⟩
    unfold visit
    rw [found, reached]

/-- The record is still about the same declaration. -/
structure Continues (old new : Record) : Prop where
  handle : new.handle = old.handle
  declared : new.declared = old.declared
  owner : new.owner = old.owner
  emits : old.emits.Nodup → new.emits.Nodup

/-- The record is the first one about a method. -/
structure Starts (m : Method) (handle : Nat) (owner : Name) (r : Record) : Prop where
  handle : r.handle = handle
  declared : r.declared = m.name
  owner : r.owner = owner
  emits : r.emits.Nodup

/-- What becomes of the records: each is continued, or else one is added for a method without. -/
inductive Enters (m : Method) (handle : Nat) (owner : Name) (before : List Record) :
    List Record → Prop where
  | continues {f : Record → Record} (same : ∀ r, Continues r (f r)) :
      Enters m handle owner before (before.map f)
  | adds {r : Record} (new : ∀ r ∈ before, r.handle ≠ handle) (starts : Starts m handle owner r) :
      Enters m handle owner before (before ++ [r])

theorem continues_merge (r : Record) (a : Annotations) : Continues r (r.merge a) :=
  ⟨rfl, rfl, rfl, fun nodup => nodup_appendAllNew nodup _⟩

theorem starts_blank_merge (m : Method) (handle : Nat) (owner : Name) (a : Annotations) :
    Starts m handle owner ((Record.blank m handle owner).merge a) :=
  ⟨rfl, rfl, rfl, nodup_appendAllNew List.nodup_nil _⟩

theorem isRecorded_eq_false {c : Catalog} {handle : Nat} :
    c.isRecorded handle = false ↔ ∀ r ∈ c.records, r.handle ≠ handle := by
  simp [isRecorded]

theorem enters_self (m : Method) (handle : Nat) (owner : Name) (records : List Record) :
    Enters m handle owner records records := by
  have same : Enters m handle owner records (records.map id) :=
    .continues fun r => ⟨rfl, rfl, rfl, id⟩
  rwa [List.map_id] at same

theorem enter_enters (c : Catalog) (m : Method) (handle : Nat) (owner : Name) (a : Annotations) :
    Enters m handle owner c.records (c.enter m handle owner a).records := by
  unfold enter
  split
  · refine .continues fun r => ?_
    split
    · exact continues_merge r a
    · exact ⟨rfl, rfl, rfl, id⟩
  · rename_i unrecorded
    split
    · have new := isRecorded_eq_false.mp (by simpa using unrecorded)
      exact .adds new (starts_blank_merge m handle owner a)
    · exact enters_self m handle owner c.records

section

variable {m : Method} {handle : Nat} {owner : Name} {before after : List Record}

theorem Enters.nodup (entered : Enters m handle owner before after)
    (nodup : (before.map (·.handle)).Nodup) : (after.map (·.handle)).Nodup := by
  cases entered with
  | @continues f same =>
    rw [List.map_map]
    have handles : ((·.handle) ∘ f : Record → Nat) = (·.handle) := funext fun r => (same r).handle
    rwa [handles]
  | adds new starts =>
    rw [List.map_append, List.nodup_append]
    refine ⟨nodup, by simp, ?_⟩
    intro old listed new' own
    obtain ⟨r, member, rfl⟩ := List.mem_map.mp listed
    have own : new' = handle := by simpa [starts.handle] using own
    exact own ▸ new r member

theorem Enters.forall {P : Record → Prop} (entered : Enters m handle owner before after)
    (continues : ∀ r r', Continues r r' → P r → P r') (starts : ∀ r, Starts m handle owner r → P r)
    (old : ∀ r ∈ before, P r) : ∀ r ∈ after, P r := by
  intro r member
  cases entered with
  | continues same =>
    obtain ⟨r, listed, rfl⟩ := List.mem_map.mp member
    exact continues r _ (same r) (old r listed)
  | adds new started =>
    rcases List.mem_append.mp member with listed | added
    · exact old r listed
    · exact starts r (List.mem_singleton.mp added ▸ started)

theorem Enters.exists_same {r : Record} (entered : Enters m handle owner before after)
    (member : r ∈ before) : ∃ r' ∈ after, r'.handle = r.handle := by
  cases entered with
  | continues same => exact ⟨_, List.mem_map_of_mem member, (same r).handle⟩
  | adds new starts => exact ⟨r, List.mem_append_left _ member, rfl⟩

end

/-- Nothing that is held would put a method on record. -/
def HoldsRest (c : Catalog) : Prop :=
  ∀ entry ∈ c.held.entries, entry.2.isRecorded = false

theorem HoldsRest.heldFor {c : Catalog} (rest : c.HoldsRest) (handle : Nat) :
    (c.heldFor handle).isRecorded = false := by
  unfold Catalog.heldFor
  cases found : c.held.get? handle with
  | none => rfl
  | some a =>
    obtain ⟨before, after, split, -⟩ := List.lookup_eq_some_iff.mp found
    exact rest (handle, a) (by simp [split])

theorem heldFor_eq_empty {c : Catalog} {handle : Nat}
    (missing : ∀ entry ∈ c.held.entries, entry.1 ≠ handle) : c.heldFor handle = {} := by
  have none : c.held.get? handle = none := by
    rw [Table.get?, List.lookup_eq_none_iff]
    intro entry member
    simpa using (missing entry member).symm
  simp [Catalog.heldFor, none]

theorem visit_enters {c : Catalog} (held : c.HoldsRest) (m : Method) (handle : Nat) (owner : Name) :
    Enters m handle owner c.records (c.visit m handle owner).1.records := by
  rcases c.visit_cases m handle owner with ended | ⟨read, d, rest, -, stopped, passed, ended⟩
  · rw [ended]
    exact enter_enters ..
  · rw [ended]
    dsimp only
    split
    · exact enter_enters ..
    · rename_i plain
      -- The owner stops the visit, so no decorator before `d` has put the method on record.
      simp only [stops, Bool.not_eq_true _ ▸ plain, Bool.false_or, Bool.and_eq_true,
        Bool.not_eq_true'] at stopped
      obtain ⟨⟨composite, -⟩, unrecorded⟩ := stopped
      have unread : read.any Decorator.isRecording = false := by
        rw [List.any_eq_false]
        intro e member
        have unstopped := passed e member
        simp_all [stops]
      have left :
          (Annotations.addAll m.name (c.heldFor handle) read).atOnce.isRecorded = false := by
        have nothing := Annotations.isRecorded_addAll m.name (c.heldFor handle) read
        rw [held.heldFor, unread] at nothing
        exact nothing
      have kept : (c.enter m handle owner
          (Annotations.addAll m.name (c.heldFor handle) read).atOnce).records = c.records := by
        simp [enter, unrecorded, left]
      have started : Starts m handle owner { Record.blank m handle owner with
          name := ((Annotations.add m.name {} d).method.map (·.1)).getD m.name } :=
        ⟨rfl, rfl, rfl, List.nodup_nil⟩
      have added := Enters.adds (isRecorded_eq_false.mp unrecorded) started
      unfold startRecord hold
      dsimp only
      rw [kept]
      exact added

/-- A visit holds nothing new, or it was stopped and holds what was read of the method's events and
flags. -/
theorem visit_held {c : Catalog} {m : Method} {handle : Nat} {owner : Name}
    {entry : Nat × Annotations} (member : entry ∈ (c.visit m handle owner).1.held.entries) :
    entry ∈ c.held.entries ∨ entry.1 = handle ∧ entry.2.isRecorded = false ∧
      (owner.isComposite = true ∨ m.hasCompositeSite = true) := by
  rcases c.visit_cases m handle owner with ended | ⟨read, d, rest, split, stopped, -, ended⟩
  · rw [ended] at member
    exact Or.inl (List.mem_filter.mp member).1
  · have inserted : (c.visit m handle owner).1.held = c.held.insert handle
        (Annotations.addAll m.name (c.heldFor handle) read).atLast := by
      rw [ended]
      dsimp only
      split <;> rfl
    rw [inserted] at member
    rcases Table.mem_entries_insert member with rfl | old
    · refine Or.inr ⟨rfl, rfl, ?_⟩
      simp only [stops, Bool.or_eq_true, Bool.and_eq_true] at stopped
      rcases stopped with composite | ⟨⟨composite, -⟩, -⟩
      · exact Or.inr (List.any_eq_true.mpr ⟨d, by simp [split], composite⟩)
      · exact Or.inl composite
    · exact Or.inl old

theorem HoldsRest.visit {c : Catalog} (rest : c.HoldsRest) (m : Method) (handle : Nat)
    (owner : Name) : (c.visit m handle owner).1.HoldsRest := by
  intro entry member
  rcases visit_held member with old | ⟨-, unrecorded, -⟩
  · exact rest entry old
  · exact unrecorded

theorem visit_classes (c : Catalog) (m : Method) (handle : Nat) (owner : Name) :
    (c.visit m handle owner).1.classes = c.classes := by
  rcases c.visit_cases m handle owner with ended | ⟨read, d, rest, -, -, -, ended⟩
  · rw [ended]
    exact enter_classes ..
  · rw [ended]
    dsimp only
    split <;> exact enter_classes ..

end Catalog

/-! ### Visits in any order -/

/-- What can be visited on its own. -/
inductive Walk where
  | method (m : Method) (owner : Name)
  | ofClass (site : Site) (c : Class) (path : Json)
  | ofSources (number : Nat) (sources : List Source)

namespace Walk

def classes : Walk → List Class
  | method _ _ => []
  | ofClass _ c _ => [c]
  | ofSources _ sources => sources.flatMap (·.classes)

def methods : Walk → List Method
  | method m _ => [m]
  | w => w.classes.flatMap (·.methods)

theorem methods_of_classes {walks : List Walk} {c : Class} (member : c ∈ walks.flatMap classes) :
    ∀ m ∈ c.methods, m ∈ walks.flatMap methods := by
  intro m own
  obtain ⟨w, listed, member⟩ := List.mem_flatMap.mp member
  refine List.mem_flatMap.mpr ⟨w, listed, ?_⟩
  cases w with
  | method m owner => cases member
  | ofClass site c path => exact List.mem_flatMap.mpr ⟨_, member, own⟩
  | ofSources number sources => exact List.mem_flatMap.mpr ⟨_, member, own⟩

/-- Whether methods are visited with their classes only. -/
def isWhole : Walk → Bool
  | method _ _ => false
  | _ => true

end Walk

/-- A key belongs to one method only. -/
def KeysTell (ms : List Method) : Prop :=
  ∀ m ∈ ms, ∀ m' ∈ ms, m.key = m'.key → m = m'

theorem KeysTell.subset {ms ms' : List Method} (tell : KeysTell ms') (subset : ms ⊆ ms') :
    KeysTell ms :=
  fun m member m' member' => tell m (subset member) m' (subset member')

namespace Survey

def walk (s : Survey) : Walk → Survey × Except Fault Unit
  | .method m owner => s.visitMethod m owner
  | .ofClass site c path => s.visitClass site c path
  | .ofSources number sources => s.visitSources number sources

/-- Goes on with the next visit also where a fault has stopped the last. -/
def walkAll (s : Survey) (walks : List Walk) : Survey :=
  walks.foldl (fun s w => (s.walk w).1) s

/-- Where visits lead with this arena and a new catalog. -/
def after (registry : Registry) (walks : List Walk) : Survey :=
  walkAll { registry } walks

section Preserves

variable {P : Survey → Prop} {s : Survey}

theorem andThen_preserves {f : Survey → Survey × Except Fault Unit} {x : Survey × Except Fault Unit}
    (first : P x.1) (keeps : ∀ s, P s → P (f s).1) : P (andThen f x).1 := by
  obtain ⟨next, outcome⟩ := x
  cases outcome with
  | error fault => exact first
  | ok _ => exact keeps next first

theorem visitMethods_preserves {owner : Name} {ms : List Method}
    (keeps : ∀ m ∈ ms, ∀ s, P s → P (s.visitMethod m owner).1) (start : P s) :
    P (s.visitMethods owner ms).1 := by
  induction ms generalizing s with
  | nil => exact start
  | cons m ms ih =>
    rw [visitMethods_cons]
    apply andThen_preserves (keeps m List.mem_cons_self s start)
    intro next kept
    exact ih (fun m member => keeps m (List.mem_cons_of_mem _ member)) kept

/-- While the methods of a class are visited, more may hold than before and after. -/
theorem visitClass_preserves {Q : Survey → Prop} {site : Site} {c : Class} {path : Json}
    (meets : c.name.isComposite = false → ∀ events,
      Q { s with catalog := { s.catalog.meet c.name site path with events } })
    (keeps : c.name.isComposite = false → ∀ m ∈ c.methods, ∀ s, Q s → Q (s.visitMethod m c.name).1)
    (weaken : ∀ s, Q s → P s) (start : P s) : P (s.visitClass site c path).1 := by
  unfold visitClass
  cases plain : c.name.isComposite with
  | true => exact start
  | false =>
    cases c.event? path with
    | error fault => exact weaken _ (meets plain s.catalog.events)
    | ok event => exact weaken _ (visitMethods_preserves (keeps plain) (meets plain _))

theorem visitClasses_preserves {number index : Nat} {path : Json} {cs : List Class}
    (keeps : ∀ c ∈ cs, ∀ s site, P s → P (s.visitClass site c path).1) (start : P s) :
    P (visitClasses number path s index cs).1 := by
  induction cs generalizing s index with
  | nil => exact start
  | cons c cs ih =>
    rw [visitClasses_cons]
    apply andThen_preserves (keeps c List.mem_cons_self s _ start)
    intro next kept
    exact ih (fun c member => keeps c (List.mem_cons_of_mem _ member)) kept

theorem visitSource_preserves {number : Nat} {source : Source}
    (keeps : ∀ c ∈ source.classes, ∀ s site path, P s → P (s.visitClass site c path).1)
    (start : P s) : P (s.visitSource number source).1 := by
  unfold visitSource
  split
  · exact start
  · exact start
  · exact visitClasses_preserves (fun c member s site => keeps c member s site _) start

theorem visitSources_preserves {number : Nat} {sources : List Source}
    (keeps : ∀ c ∈ sources.flatMap (·.classes), ∀ s site path, P s →
      P (s.visitClass site c path).1) (start : P s) : P (s.visitSources number sources).1 := by
  induction sources generalizing s number with
  | nil => exact start
  | cons source rest ih =>
    simp only [List.flatMap_cons, List.mem_append] at keeps
    rw [visitSources_cons]
    apply andThen_preserves (visitSource_preserves (fun c member => keeps c (Or.inl member)) start)
    intro next kept
    exact ih (fun c member => keeps c (Or.inr member)) kept

/-- A property that visiting a method keeps, and visiting a class, is one that every visit keeps. -/
theorem walkAll_preserves {walks : List Walk}
    (methods : ∀ m owner, .method m owner ∈ walks → ∀ s, P s → P (s.visitMethod m owner).1)
    (classes : ∀ c ∈ walks.flatMap Walk.classes, ∀ s site path, P s →
      P (s.visitClass site c path).1) (start : P s) : P (s.walkAll walks) := by
  induction walks generalizing s with
  | nil => exact start
  | cons w walks ih =>
    simp only [List.flatMap_cons, List.mem_append] at classes
    have next : P (s.walk w).1 := by
      cases w with
      | method m owner => exact methods m owner List.mem_cons_self s start
      | ofClass site c path =>
        exact classes c (Or.inl (List.mem_singleton.mpr rfl)) s site path start
      | ofSources number sources =>
        exact visitSources_preserves (fun c member => classes c (Or.inl member)) start
    exact ih (fun m owner member => methods m owner (List.mem_cons_of_mem _ member))
      (fun c member => classes c (Or.inr member)) next

end Preserves

/-! ### The ledger of a survey -/

/-- The ledger has entered the visits of methods that the survey has made, in their order and with
their handles. -/
inductive Follows : Ledger → Survey → Prop where
  | start (registry : Registry) : Follows {} { registry }
  | meet {l : Ledger} {s : Survey} (follows : Follows l s) (name : Name) (site : Site) (path : Json)
      (events : List Event) :
    Follows l { s with catalog := { s.catalog.meet name site path with events } }
  | visit {l : Ledger} {s : Survey} (follows : Follows l s) (m : Method) (owner : Name) :
    Follows (l.visit m (s.registry.add m owner).1 owner).1 (s.visitMethod m owner).1

theorem after_follows (registry : Registry) (walks : List Walk) :
    ∃ l, Follows l (after registry walks) ∧ l.Represents (after registry walks).catalog := by
  let pictured (s : Survey) : Prop := ∃ l, Follows l s ∧ l.Represents s.catalog
  have visited (m : Method) (owner : Name) (s : Survey) (before : pictured s) :
      pictured (s.visitMethod m owner).1 := by
    obtain ⟨l, follows, represents⟩ := before
    refine ⟨_, follows.visit m owner, ?_⟩
    rw [visitMethod_eq]
    exact (Ledger.visit_represents represents m (s.registry.add m owner).1 owner).2
  have met (s : Survey) (before : pictured s) (name : Name) (site : Site) (path : Json)
      (events : List Event) :
      pictured { s with catalog := { s.catalog.meet name site path with events } } := by
    obtain ⟨l, follows, represents⟩ := before
    exact ⟨l, follows.meet name site path events, represents.congr rfl (fun _ => rfl) (fun _ => id) rfl⟩
  refine walkAll_preserves (P := pictured) (fun m owner _ => visited m owner) ?_
    ⟨{}, .start registry, Ledger.represents_empty⟩
  intro c _ s site path before
  exact visitClass_preserves (Q := pictured) (fun _ events => met s before c.name site path events)
    (fun _ m _ => visited m c.name) (fun _ kept => kept) before

/-! ### One record for each declaration -/

/-- Every record is the only one of a method of `ms`, and what is held is held for one of
`stopped`. -/
structure Tracks (ms stopped : List Method) (s : Survey) : Prop where
  distinct : (s.catalog.records.map (·.handle)).Nodup
  registered : ∀ r ∈ s.catalog.records, ∃ m ∈ ms, s.registry.HasHandle m.key r.handle ∧
    r.declared = m.name
  emits : ∀ r ∈ s.catalog.records, r.emits.Nodup
  held : ∀ entry ∈ s.catalog.held.entries, ∃ m ∈ stopped, s.registry.HasHandle m.key entry.1
  rest : s.catalog.HoldsRest

variable {ms stopped : List Method} {s : Survey}

theorem tracks_start (registry : Registry) : Tracks ms stopped { registry } :=
  ⟨List.nodup_nil, nofun, nofun, nofun, nofun⟩

theorem visitMethod_tracks {m : Method} {owner : Name} (tracked : s.Tracks ms stopped)
    (known : m ∈ ms)
    (stops : owner.isComposite = true ∨ m.hasCompositeSite = true → m ∈ stopped) :
    (s.visitMethod m owner).1.Tracks ms stopped := by
  have own := s.registry.add_hasHandle m owner
  have entered := Catalog.visit_enters tracked.rest m (s.registry.add m owner).1 owner
  rw [visitMethod_eq]
  refine ⟨entered.nodup tracked.distinct, entered.forall ?_ ?_ ?_, ?_, ?_, ?_⟩
  · rintro r r' same ⟨m', listed, has, declared⟩
    exact ⟨m', listed, same.handle ▸ has, same.declared.trans declared⟩
  · intro r starts
    exact ⟨m, known, starts.handle ▸ own, starts.declared⟩
  · intro r member
    obtain ⟨m', listed, has, declared⟩ := tracked.registered r member
    exact ⟨m', listed, Registry.hasHandle_add has m owner, declared⟩
  · exact entered.forall (fun r r' same => same.emits) (fun r starts => starts.emits) tracked.emits
  · intro entry member
    rcases Catalog.visit_held member with old | ⟨here, -, composite⟩
    · obtain ⟨m', listed, has⟩ := tracked.held entry old
      exact ⟨m', listed, Registry.hasHandle_add has m owner⟩
    · exact ⟨m, stops composite, here ▸ own⟩
  · exact tracked.rest.visit m _ owner

theorem Tracks.meet (tracked : s.Tracks ms stopped) (name : Name) (site : Site) (path : Json)
    (events : List Event) :
    Tracks ms stopped { s with catalog := { s.catalog.meet name site path with events } } :=
  ⟨tracked.distinct, tracked.registered, tracked.emits, tracked.held, tracked.rest⟩

theorem visitClass_tracks {c : Class} (tracked : s.Tracks ms stopped) (site : Site) (path : Json)
    (known : ∀ m ∈ c.methods, m ∈ ms)
    (stops : ∀ m ∈ c.methods, m.hasCompositeSite = true → m ∈ stopped) :
    (s.visitClass site c path).1.Tracks ms stopped := by
  refine visitClass_preserves ?_ ?_ (fun _ tracked => tracked) tracked
  · intro plain events
    exact tracked.meet c.name site path events
  · intro plain m member s tracked
    apply visitMethod_tracks tracked (known m member)
    simpa [plain] using stops m member

theorem after_tracks (registry : Registry) {walks : List Walk}
    (stops : ∀ m ∈ walks.flatMap Walk.methods, m.hasCompositeSite = true → m ∈ stopped)
    (owners : ∀ m owner, .method m owner ∈ walks → owner.isComposite = true → m ∈ stopped) :
    (after registry walks).Tracks (walks.flatMap Walk.methods) stopped := by
  refine walkAll_preserves ?_ ?_ (tracks_start registry)
  · intro m owner member s tracked
    have listed : m ∈ walks.flatMap Walk.methods :=
      List.mem_flatMap.mpr ⟨_, member, List.mem_singleton.mpr rfl⟩
    apply visitMethod_tracks tracked listed
    rintro (composite | composite)
    · exact owners m owner member composite
    · exact stops m listed composite
  · intro c member s site path tracked
    have listed := Walk.methods_of_classes member
    exact visitClass_tracks tracked site path listed fun m own => stops m (listed m own)

/-! ### Records under their classes -/

/-- All methods have been visited with their classes, and the arena has no others. -/
structure Books (ms : List Method) (s : Survey) : Prop extends
    Tracks ms (ms.filter Method.hasCompositeSite) s where
  named : ∀ e ∈ s.registry.arena, ∃ m ∈ ms, m.key = e.key ∧ m.name = e.name
  plain : ∀ r ∈ s.catalog.records, r.owner.isComposite = false
  met : s.catalog.IsMet

theorem visitMethod_books {m : Method} {owner : Name} (books : s.Books ms) (known : m ∈ ms)
    (plain : owner.isComposite = false) (listed : s.catalog.classes.contains owner.key = true) :
    (s.visitMethod m owner).1.Books ms ∧
      (s.visitMethod m owner).1.catalog.classes = s.catalog.classes := by
  have entered := Catalog.visit_enters books.rest m (s.registry.add m owner).1 owner
  have classes := s.catalog.visit_classes m (s.registry.add m owner).1 owner
  have tracked : (s.visitMethod m owner).1.Tracks ms (ms.filter Method.hasCompositeSite) := by
    apply visitMethod_tracks books.toTracks known
    rintro (composite | composite)
    · rw [plain] at composite
      cases composite
    · exact List.mem_filter.mpr ⟨known, composite⟩
  refine ⟨⟨tracked, ?_, entered.forall ?_ ?_ books.plain, entered.forall ?_ ?_ ?_⟩, classes⟩
  · intro e member
    rcases Registry.mem_arena_add member with old | rfl
    · exact books.named e old
    · exact ⟨m, known, rfl, rfl⟩
  · intro r r' same plain
    rwa [same.owner]
  · intro r starts
    rwa [starts.owner]
  · intro r r' same met
    rwa [same.owner]
  · intro r starts
    rw [starts.owner, visitMethod_eq]
    exact classes ▸ listed
  · rw [visitMethod_eq]
    exact classes ▸ books.met

theorem Books.meet (books : s.Books ms) (name : Name) (site : Site) (path : Json)
    (events : List Event) :
    Books ms { s with catalog := { s.catalog.meet name site path with events } } where
  toTracks := books.toTracks.meet name site path events
  named := books.named
  plain := books.plain
  met r member := Catalog.contains_meet _ _ _ (Or.inr (books.met r member))

theorem visitClass_books {c : Class} (books : s.Books ms) (site : Site) (path : Json)
    (known : ∀ m ∈ c.methods, m ∈ ms) : (s.visitClass site c path).1.Books ms := by
  -- The class has to stay listed, or the next method's record would belong to an unmet one.
  let kept (s : Survey) : Prop := s.Books ms ∧ s.catalog.classes.contains c.name.key = true
  refine visitClass_preserves (Q := kept) ?_ ?_ (fun _ both => both.1) books
  · intro plain events
    exact ⟨books.meet c.name site path events, Catalog.contains_meet _ _ _ (Or.inl rfl)⟩
  · rintro plain m member s ⟨books, listed⟩
    obtain ⟨after, classes⟩ := visitMethod_books books (known m member) plain listed
    exact ⟨after, classes ▸ listed⟩

theorem after_books (handles : Table Nat Nat) {walks : List Walk}
    (whole : ∀ w ∈ walks, w.isWhole = true) :
    (after { handles } walks).Books (walks.flatMap Walk.methods) := by
  refine walkAll_preserves ?_ ?_ ⟨tracks_start _, nofun, nofun, nofun⟩
  · intro m owner member
    cases whole _ member
  · intro c member s site path books
    exact visitClass_books books site path (Walk.methods_of_classes member)

/-! ### Books that agree -/

/-- What the index of records, the records by class, the arena and the classes met say of each
other. -/
structure IsConsistent (s : Survey) : Prop where
  once : (s.catalog.ordered.map (·.handle)).Nodup
  indexed : ∀ handle r, s.catalog.record? handle = some r ↔
    r ∈ s.catalog.ordered ∧ (r.handle : Int) = handle
  grouped : ∀ group ∈ s.catalog.byClass, group.2 ≠ [] ∧ ∀ r ∈ group.2, r.owner.key = group.1.key
  declared : ∀ r ∈ s.catalog.ordered,
    (s.registry.arena[r.handle]?).map (·.name) = some r.declared
  met : ∀ group ∈ s.catalog.byClass, s.catalog.classes.contains group.1.key = true
  emits : ∀ r ∈ s.catalog.ordered, r.emits.Nodup

theorem Tracks.record?_eq_some (tracked : s.Tracks ms stopped) {handle : Int} {r : Record} :
    s.catalog.record? handle = some r ↔ r ∈ s.catalog.records ∧ (r.handle : Int) = handle := by
  constructor
  · intro found
    exact ⟨List.mem_of_find?_eq_some found, by simpa using List.find?_some found⟩
  · rintro ⟨member, rfl⟩
    have known : (s.catalog.record? r.handle).isSome = true := by
      simpa [Catalog.record?] using ⟨r, member, rfl⟩
    obtain ⟨r', found⟩ := Option.isSome_iff_exists.mp known
    have same : r'.handle = r.handle := by
      have handles := List.find?_some found
      simp only [decide_eq_true_eq] at handles
      omega
    have member' := List.mem_of_find?_eq_some found
    rw [found, List.inj_on_of_nodup_map tracked.distinct member' member same]

theorem Books.isConsistent (books : s.Books ms)
    (names : ∀ m ∈ ms, ∀ m' ∈ ms, m.key = m'.key → m.name = m'.name) : s.IsConsistent := by
  have listed : s.catalog.ordered.Perm s.catalog.records := by
    rw [Catalog.ordered_eq_groupedBy books.plain]
    exact groupedBy_perm _ _
  refine ⟨?_, ?_, ?_, ?_, ?_, ?_⟩
  · exact (listed.map _).nodup_iff.mpr books.distinct
  · intro handle r
    rw [books.record?_eq_some, listed.mem_iff]
  · intro group member
    obtain ⟨owner, own, rfl⟩ := List.mem_map.mp member
    refine ⟨Catalog.recordsOf_ne_nil own, fun r listed => ?_⟩
    simpa using (List.mem_filter.mp listed).2
  · intro r member
    obtain ⟨m, known, has, declared⟩ := books.registered r (listed.mem_iff.mp member)
    obtain ⟨e, found, key⟩ := has.entry
    obtain ⟨m', known', key', name⟩ := books.named e (List.mem_of_getElem? found)
    rw [found, declared, ← names m' known' m known (key'.trans key), name]
    rfl
  · intro group member
    obtain ⟨owner, own, rfl⟩ := List.mem_map.mp member
    exact books.met.contains own
  · intro r member
    exact books.emits r (listed.mem_iff.mp member)

end Survey

/-! ### No class is missing -/

namespace Injector

theorem inject_findings (s : Injector) (site : Site) (records : List Record) {f : Finding}
    (member : f ∈ (s.inject site records).1.findings) : f ∈ s.findings ∨ f.code ≠ "W003" := by
  unfold inject at member
  split at member
  · exact Or.inl member
  · rcases List.mem_append.mp member with old | new
    · exact Or.inl old
    · obtain ⟨c, -, rfl⟩ := List.mem_map.mp new
      exact Or.inr (by simp [Finding.code])

theorem injectAll_findings {classes : Table Json Visit} {s : Injector}
    {groups : List (Name × List Record)}
    (met : ∀ group ∈ groups, classes.contains group.1.key = true) {f : Finding}
    (member : f ∈ (injectAll classes s groups).1.findings) : f ∈ s.findings ∨ f.code ≠ "W003" := by
  fun_induction injectAll classes s groups with
  | case1 => exact Or.inl member
  | case2 s owner rest ih => exact ih (fun g listed => met g (List.mem_cons_of_mem _ listed)) member
  | case3 s owner records rest nonempty unmet ih =>
    have known := met _ List.mem_cons_self
    simp [Table.contains, unmet] at known
  | case4 s owner records rest nonempty visit found next fault stopped =>
    have here := s.inject_findings visit.site records (f := f)
    rw [stopped] at here
    exact here member
  | case5 s owner records rest nonempty visit found next m injected last result ran ih =>
    have here := s.inject_findings visit.site records (f := f)
    rw [injected] at here
    rw [ran] at ih
    rcases ih (fun g listed => met g (List.mem_cons_of_mem _ listed)) member with old | other
    · exact here old
    · exact Or.inr other

end Injector

/-- The findings that a run adds say nothing of classes without a declaration. -/
theorem Transformer.run_findings {t : Transformer} {code : Codebase} {program : Option Program}
    {f : Finding} (member : f ∈ (t.run code program).1.findings) :
    f ∈ t.findings ∨ f.code ≠ "W003" := by
  have checked {c : Catalog} (member : f ∈ t.findings ++ c.eventFindings) :
      f ∈ t.findings ∨ f.code ≠ "W003" := by
    refine (List.mem_append.mp member).imp id fun new => ?_
    rcases List.mem_append.mp new with undeclared | unused
    · obtain ⟨r, -, own⟩ := List.mem_flatMap.mp undeclared
      obtain ⟨event, -, rfl⟩ := List.mem_map.mp own
      simp [Finding.code]
    · obtain ⟨event, -, rfl⟩ := List.mem_map.mp unused
      simp [Finding.code]
  cases surveyed : (code.survey program).2 with
  | error fault =>
    rw [run_eq_of_survey_error surveyed] at member
    exact Or.inl member
  | ok c =>
    cases built : c.build with
    | error fault =>
      rw [run_eq_of_build_error surveyed built] at member
      exact checked member
    | ok result =>
      obtain ⟨c', unit, classes⟩ := result
      obtain ⟨s, output, stages, -⟩ := stages_of_build_ok (t := t) surveyed built
      rw [stages.ran] at member
      have injected := Injector.injectAll_findings (s := t.injector code program c)
        (fun group listed => (stages.ready group listed).2.1) (f := f)
      rw [stages.injected] at injected
      exact (injected member).elim checked Or.inr

namespace Survey

/-- Whatever classes are visited, in whatever order and however their visits end, the books of a new
survey agree, and nothing is held but for methods that have a decorator with a composite name. They
are the books of the ledger that has entered the same visits: both its indices show the records of
the catalog, and nothing waits there that is not held. No run reports a class with records and
without a declaration. -/
theorem visits_keep_books (handles : Table Nat Nat) {walks : List Walk}
    (whole : ∀ w ∈ walks, w.isWhole = true)
    (names : ∀ m ∈ walks.flatMap Walk.methods, ∀ m' ∈ walks.flatMap Walk.methods,
      m.key = m'.key → m.name = m'.name) :
    (after { handles } walks).IsConsistent ∧
      (∀ entry ∈ (after { handles } walks).catalog.held.entries,
        ∃ m ∈ walks.flatMap Walk.methods, m.hasCompositeSite = true ∧
          (after { handles } walks).registry.HasHandle m.key entry.1) ∧
      (∃ l, Follows l (after { handles } walks) ∧
        l.byClass = (after { handles } walks).catalog.byClass ∧
        (∀ handle : Nat, l.record? handle = (after { handles } walks).catalog.record? handle) ∧
        ∀ handle, l.pending.contains handle = true →
          (after { handles } walks).catalog.held.contains handle = true) ∧
      ∀ (t : Transformer) (code : Codebase) (program : Option Program),
        ∀ f ∈ (t.run code program).1.findings, f ∈ t.findings ∨ f.code ≠ "W003" := by
  have books := after_books handles whole
  refine ⟨books.isConsistent names, ?_, ?_, fun t code program f => Transformer.run_findings⟩
  · intro entry member
    obtain ⟨m, listed, has⟩ := books.held entry member
    obtain ⟨known, composite⟩ := List.mem_filter.mp listed
    exact ⟨m, known, composite, has⟩
  · obtain ⟨l, follows, represents⟩ := after_follows { handles } walks
    exact ⟨l, follows, represents.byClass, represents.record?, represents.held⟩

/-- The second method cannot be visited to its end. -/
def foundry : Class where
  name := .str "Foundry"
  members := [
    .method {
      key := 4, name := .str "mint"
      decorators := [⟨.str "emit", ["Minted"]⟩, ⟨.str "method", []⟩] },
    .method {
      key := 7, name := .str "melt"
      decorators := [⟨.str "returns", []⟩, ⟨.str "emit", ["Melted"]⟩, ⟨.arr [], []⟩] }]
  decorators := []
  base := .null

/-- The class on its own, then with its source, then on its own again. -/
def rounds : List Walk :=
  [.ofClass ⟨0, 0⟩ foundry (.str "a.ts"), .ofSources 0 [⟨.str "a.ts", [foundry], false⟩],
    .ofClass ⟨0, 0⟩ foundry (.str "a.ts")]

/-- Both methods come with handles of an earlier arena. -/
def earlier : Table Nat Nat :=
  .ofPairs [(7, 0), (4, 12)]

theorem books_of_rounds :
    (after { handles := earlier } rounds).IsConsistent ∧
    (after { handles := earlier } rounds).catalog.ordered.map
      (fun r => (r.handle, r.declared, r.emits)) =
        [(0, Json.str "mint", [("Minted" : Text)]), (1, .str "melt", [])] ∧
    (after { handles := earlier } rounds).catalog.held.keys = [1] := by
  have whole : ∀ w ∈ rounds, w.isWhole = true := by decide
  have names : ∀ m ∈ rounds.flatMap Walk.methods, ∀ m' ∈ rounds.flatMap Walk.methods,
      m.key = m'.key → m.name = m'.name := by decide
  exact ⟨(visits_keep_books earlier whole names).1, by decide, by decide⟩

/-- A visit that is stopped after `@emit` leaves the event behind. -/
theorem stopped_visit_holds :
    (after {} [.ofClass ⟨0, 0⟩ foundry (.str "a.ts")]).catalog.held.entries =
      [(1, { emits := ["Melted"] })] := by
  decide

end Survey

end ContractAbi
