import ContractAbi.Proofs.Inventory
import Mathlib.Data.List.Nodup

/-!
# The records behind two indices

A catalog is one list of records. A ledger enters them the way they come, decorator by decorator:
every record has a place, one index finds it by the handle of its declaration, and another has the
places of each class. Whatever methods are visited, the list is a faithful picture of both
indices: `Ledger.visit_represents`.
-/

namespace ContractAbi

/-- What waits for the last decorator of a method. -/
structure Pending where
  emits : List Text := []
  isView : Bool := false
  isPayable : Bool := false
  isOwnerOnly : Bool := false

def Pending.toAnnotations (p : Pending) : Annotations :=
  { emits := p.emits, isView := p.isView, isPayable := p.isPayable, isOwnerOnly := p.isOwnerOnly }

structure Ledger where
  records : List Record := []
  /-- The places of records, by handle. -/
  places : Table Nat Nat := {}
  /-- The classes by what their names are known by, each with its first name and the places of its
  records. -/
  owners : Table Json (Name × List Nat) := {}
  pending : Table Nat Pending := {}
  strayEmits : List Text := []

namespace Ledger

def record? (l : Ledger) (handle : Nat) : Option Record :=
  (l.places.get? handle).bind (l.records[·]?)

def byClass (l : Ledger) : List (Name × List Record) :=
  l.owners.entries.map fun (_, name, places) => (name, places.filterMap (l.records[·]?))

def pendingFor (l : Ledger) (handle : Nat) : Pending :=
  (l.pending.get? handle).getD {}

def wait (l : Ledger) (handle : Nat) (f : Pending → Pending) : Ledger :=
  { l with pending := l.pending.insert handle (f (l.pendingFor handle)) }

def amend (l : Ledger) (place : Nat) (f : Record → Record) : Ledger :=
  { l with records := l.records.modify place f }

/-- Enters a place for a class. -/
def list (owners : Table Json (Name × List Nat)) (owner : Name) (place : Nat) :
    Table Json (Name × List Nat) :=
  let known := (owners.get? owner.key).getD (owner, [])
  owners.insert owner.key (known.1, known.2 ++ [place])

/-- Finds the place of the record with the handle of `r`, or starts with `r`. A composite name of the
class stops that when the record can already be found by its handle. -/
def recordFor (l : Ledger) (r : Record) : Ledger × Except Fault Nat :=
  match l.places.get? r.handle with
  | some place => (l, .ok place)
  | none =>
    let place := l.records.length
    let l := { l with
      records := l.records ++ [r]
      places := l.places.insert r.handle place }
    if r.owner.isComposite then (l, .error .compositeName)
    else ({ l with owners := list l.owners r.owner place }, .ok place)

/-- Amends the record with the handle of `r`, which is started with `r` if need be. -/
def enter (l : Ledger) (r : Record) (f : Record → Record) : Ledger × Except Fault Unit :=
  match l.recordFor r with
  | (l, .ok place) => (l.amend place f, .ok ())
  | (l, .error fault) => (l, .error fault)

/-- Takes one decorator of a method into account. -/
def read (l : Ledger) (m : Method) (handle : Nat) (owner : Name) (d : Decorator) :
    Ledger × Except Fault Unit :=
  if d.name.isText "method" then
    let arguments := MethodArguments.parse d.unquoted
    let name := arguments.nameOr m.name
    l.enter { Record.blank m handle owner with name } fun r =>
      { r with name, params := arguments.toParams }
  else if d.name.isText "returns" then
    l.enter (.blank m handle owner) fun r => { r with returns := d.unquoted.map Param.parse }
  else if d.name.isText "emit" then
    (l.wait handle fun p => { p with emits := appendAllNew p.emits d.unquoted }, .ok ())
  else if d.name.isComposite then (l, .error .compositeName)
  else if d.name.isText "view" then (l.wait handle ({ · with isView := true }), .ok ())
  else if d.name.isText "payable" then (l.wait handle ({ · with isPayable := true }), .ok ())
  else if d.name.isText "onlyOwner" then (l.wait handle ({ · with isOwnerOnly := true }), .ok ())
  else (l, .ok ())

def readAll (m : Method) (handle : Nat) (owner : Name) :
    Ledger → List Decorator → Ledger × Except Fault Unit
  | l, [] => (l, .ok ())
  | l, d :: ds =>
    match l.read m handle owner d with
    | (l, .ok ()) => readAll m handle owner l ds
    | (l, .error fault) => (l, .error fault)

/-- Enters what has waited for the last decorator. -/
def settle (l : Ledger) (handle : Nat) : Ledger :=
  let waiting := l.pendingFor handle
  let l := { l with pending := l.pending.erase handle }
  match l.places.get? handle with
  | some place => l.amend place (·.merge waiting.toAnnotations)
  | none => { l with strayEmits := appendAllNew l.strayEmits waiting.emits }

def visit (l : Ledger) (m : Method) (handle : Nat) (owner : Name) : Ledger × Except Fault Unit :=
  match l.readAll m handle owner m.decorators with
  | (l, .ok ()) => (l.settle handle, .ok ())
  | (l, .error fault) => (l, .error fault)

/-! ### Pictures of a ledger -/

/-- The places of the records of a class. -/
def placesOf (owner : Name) (records : List Record) : List Nat :=
  (records.zipIdx.filter (·.1.owner.key = owner.key)).map (·.2)

/-- The catalog has the records of the ledger, and both indices show where they are. -/
structure Represents (l : Ledger) (c : Catalog) : Prop where
  records : l.records = c.records
  distinct : (c.records.map (·.handle)).Nodup
  places : ∀ handle, l.places.get? handle = c.records.findIdx? (·.handle = handle)
  owners : l.owners.entries =
    c.owners.map fun owner => (owner.key, owner, placesOf owner c.records)
  pending : ∀ handle, c.heldFor handle = (l.pendingFor handle).toAnnotations
  held : ∀ handle, l.pending.contains handle = true → c.held.contains handle = true
  strayEmits : l.strayEmits = c.strayEmits

/-! ### What the indices show -/

variable {l : Ledger} {c : Catalog} {m : Method} {handle : Nat} {owner : Name}

theorem Represents.record? (pictured : l.Represents c) (handle : Nat) :
    l.record? handle = c.record? handle := by
  unfold Ledger.record? Catalog.record?
  rw [pictured.places, pictured.records]
  simp only [Int.ofNat_inj]
  exact List.find?_eq_bind_findIdx?_getElem?.symm

theorem filterMap_placesOf (owner : Name) (records : List Record) :
    (placesOf owner records).filterMap (records[·]?) =
      records.filter (·.owner.key = owner.key) := by
  have found : ∀ p ∈ records.zipIdx.filter (·.1.owner.key = owner.key),
      records[p.2]? = some p.1 := fun p member =>
    List.mem_zipIdx_iff_getElem?.mp (List.mem_filter.mp member).1
  have listed : records.filter (·.owner.key = owner.key) =
      (records.zipIdx.filter (·.1.owner.key = owner.key)).map Prod.fst := by
    conv_lhs => rw [← List.zipIdx_map_fst 0 records]
    exact List.filter_map
  rw [placesOf, List.filterMap_map, listed, ← List.filterMap_eq_map]
  exact List.filterMap_congr found

theorem Represents.byClass (pictured : l.Represents c) : l.byClass = c.byClass := by
  unfold Ledger.byClass Catalog.byClass
  rw [pictured.owners, List.map_map, pictured.records]
  refine List.map_congr_left fun owner _ => ?_
  exact congrArg (owner, ·) (filterMap_placesOf owner c.records)

theorem represents_empty : Represents {} {} := by
  exact ⟨rfl, List.nodup_nil, fun _ => rfl, rfl, fun _ => rfl, fun _ => id, rfl⟩

theorem Represents.isRecorded (pictured : l.Represents c) (handle : Nat) :
    (l.places.get? handle).isSome = c.isRecorded handle := by
  rw [pictured.places, List.findIdx?_isSome]
  rfl

/-! ### Records that are amended -/

theorem modify_eq_map {records : List Record} {place : Nat} (f : Record → Record)
    (distinct : (records.map (·.handle)).Nodup)
    (found : records.findIdx? (·.handle = handle) = some place) :
    records.modify place f = records.map fun r => if r.handle = handle then f r else r := by
  induction records generalizing place with
  | nil => cases found
  | cons r records ih =>
    rw [List.map_cons, List.nodup_cons] at distinct
    rw [List.findIdx?_cons] at found
    by_cases own : r.handle = handle
    · have first : place = 0 := by simpa [own] using found.symm
      have others : ∀ r' ∈ records, r'.handle ≠ handle := fun r' member same =>
        distinct.1 (List.mem_map.mpr ⟨r', member, same.trans own.symm⟩)
      rw [first, List.modify_zero_cons, List.map_cons, if_pos own]
      have kept : records.map (fun r => if r.handle = handle then f r else r) = records :=
        (List.map_congr_left fun r' member => if_neg (others r' member)).trans (List.map_id _)
      rw [kept]
    · obtain ⟨place, later, rfl⟩ : ∃ p, records.findIdx? (·.handle = handle) = some p ∧
          place = p + 1 := by
        rw [decide_eq_false own, if_neg Bool.false_ne_true, Option.map_eq_some_iff] at found
        obtain ⟨p, later, next⟩ := found
        exact ⟨p, later, next.symm⟩
      rw [List.modify_succ_cons, List.map_cons, if_neg own, ih distinct.2 later]

/-- What is amended keeps handle and class. -/
theorem Represents.amend (pictured : l.Represents c) {f : Record → Record}
    (keeps : ∀ r, (f r).handle = r.handle ∧ (f r).owner = r.owner) {place : Nat}
    (found : l.places.get? handle = some place) :
    (l.amend place f).Represents { c with
      records := c.records.map fun r => if r.handle = handle then f r else r } := by
  let g (r : Record) : Record := if r.handle = handle then f r else r
  have handles (r : Record) : (g r).handle = r.handle := by
    by_cases own : r.handle = handle <;> simp [g, own, keeps]
  have owners (r : Record) : (g r).owner = r.owner := by
    by_cases own : r.handle = handle <;> simp [g, own, keeps]
  rw [pictured.places] at found
  refine ⟨?_, ?_, fun handle => ?_, ?_, pictured.pending, pictured.held, pictured.strayEmits⟩
  · rw [Ledger.amend, pictured.records]
    exact modify_eq_map f pictured.distinct found
  · change ((c.records.map g).map (·.handle)).Nodup
    rw [List.map_map]
    simpa [Function.comp_def, handles] using pictured.distinct
  · change l.places.get? handle = (c.records.map g).findIdx? (·.handle = handle)
    rw [List.findIdx?_map, pictured.places]
    simp [Function.comp_def, handles]
  · change l.owners.entries = (Catalog.owners { c with records := c.records.map g }).map
      fun owner => (owner.key, owner, placesOf owner (c.records.map g))
    have same : Catalog.owners { c with records := c.records.map g } = c.owners := by
      simp [Catalog.owners, Function.comp_def, owners]
    have placed (owner : Name) : placesOf owner (c.records.map g) = placesOf owner c.records := by
      simp [placesOf, List.zipIdx_map, List.filter_map, Function.comp_def, owners]
    rw [same, pictured.owners]
    simp only [placed]

/-! ### Records that are started -/

theorem placesOf_concat (owner : Name) (records : List Record) (r : Record) :
    placesOf owner (records ++ [r]) =
      if r.owner.key = owner.key then placesOf owner records ++ [records.length]
      else placesOf owner records := by
  by_cases own : r.owner.key = owner.key <;> simp [placesOf, List.zipIdx_append, own]

theorem Json.isComposite_of_key_eq {a b : Name} (same : a.key = b.key) :
    a.isComposite = b.isComposite := by
  have kept (x : Name) : x.key.isComposite = x.isComposite := by
    cases x with
    | bool b => cases b <;> rfl
    | real x => rw [Json.key]; cases x.whole? <;> rfl
    | _ => rfl
  rw [← kept a, same, kept]

theorem isComposite_of_mem_owners (listed : owner ∈ c.owners) : owner.isComposite = false := by
  simpa using (List.mem_filter.mp (mem_of_mem_firstOfEach listed)).2

/-- The index by classes with one more record. -/
theorem owners_concat (pictured : l.Represents c) {r : Record}
    (plain : r.owner.isComposite = false) :
    (list l.owners r.owner c.records.length).entries =
      (Catalog.owners { c with records := c.records ++ [r] }).map
        fun owner => (owner.key, owner, placesOf owner (c.records ++ [r])) := by
  have keys : l.owners.entries.map (·.1) = c.owners.map Json.key := by
    rw [pictured.owners, List.map_map]
    rfl
  have distinct : (l.owners.entries.map (·.1)).Nodup := keys ▸ c.nodup_owner_keys
  have listed : r.owner.key ∈ ((c.records.map (·.owner)).filter (!·.isComposite)).map Json.key ↔
      r.owner.key ∈ l.owners.entries.map (·.1) := by
    rw [keys, Catalog.owners, map_firstOfEach, mem_distinct]
  have grown : Catalog.owners { c with records := c.records ++ [r] } =
      if r.owner.key ∈ l.owners.entries.map (·.1) then c.owners else c.owners ++ [r.owner] := by
    unfold Catalog.owners
    simp only [List.map_append, List.filter_append, List.map_singleton]
    rw [List.filter_cons_of_pos (by simp [plain]), List.filter_nil, firstOfEach_concat]
    simp only [listed]
  rw [grown, list]
  by_cases known : r.owner.key ∈ l.owners.entries.map (·.1)
  · obtain ⟨first, member, same⟩ := List.mem_map.mp (keys ▸ known)
    have found {owner : Name} (member : owner ∈ c.owners) :
        l.owners.get? owner.key = some (owner, placesOf owner c.records) :=
      Table.get?_of_mem (p := (owner.key, owner, _)) distinct
        (pictured.owners ▸ List.mem_map.mpr ⟨owner, member, rfl⟩)
    rw [if_pos known, ← same, found member, Option.getD_some]
    rw [Table.insert, Table.insertInto_of_mem _ distinct (same ▸ known), pictured.owners,
      List.map_map]
    refine List.map_congr_left fun owner listed => ?_
    rw [placesOf_concat, ← same]
    by_cases here : owner.key = first.key
    · have equal : owner = first := by
        have both := (found listed).symm.trans (here ▸ found member)
        exact (Prod.mk.inj (Option.some.inj both)).1
      simp [equal]
    · simp [here, Ne.symm here]
  · have missing : l.owners.get? r.owner.key = none := by
      rw [Table.get?, List.lookup_eq_none_iff]
      intro e member
      rw [bne_iff_ne]
      rintro same
      exact known (same ▸ List.mem_map_of_mem member)
    have absent {owner : Name} (member : owner ∈ c.owners) : r.owner.key ≠ owner.key := by
      intro same
      exact known (keys ▸ same ▸ List.mem_map_of_mem member)
    have none : placesOf r.owner c.records = [] := by
      rw [placesOf, List.map_eq_nil_iff, List.filter_eq_nil_iff]
      intro p member same
      have same := of_decide_eq_true same
      have other : p.1.owner.isComposite = false := (Json.isComposite_of_key_eq same).trans plain
      have recorded := List.fst_mem_of_mem_zipIdx member
      refine known (listed.mp (List.mem_map.mpr ⟨p.1.owner, ?_, same⟩))
      simpa [other] using ⟨p.1, recorded, rfl⟩
    rw [if_neg known, missing, Option.getD_none]
    rw [Table.insert, Table.insertInto_of_new _ known, List.map_append, pictured.owners,
      List.map_singleton, placesOf_concat, if_pos rfl, none]
    refine congrArg (· ++ _) (List.map_congr_left fun owner listed => ?_)
    rw [placesOf_concat, if_neg (absent listed)]

theorem owners_concat_composite (pictured : l.Represents c) {r : Record}
    (composite : r.owner.isComposite = true) :
    l.owners.entries = (Catalog.owners { c with records := c.records ++ [r] }).map
        fun owner => (owner.key, owner, placesOf owner (c.records ++ [r])) := by
  have same : Catalog.owners { c with records := c.records ++ [r] } = c.owners := by
    simp [Catalog.owners, composite]
  rw [same, pictured.owners]
  refine List.map_congr_left fun owner listed => ?_
  have other : r.owner.key ≠ owner.key := fun equal => by
    simp [Json.isComposite_of_key_eq equal, isComposite_of_mem_owners listed] at composite
  rw [placesOf_concat, if_neg other]

theorem findIdx?_concat {records : List Record} {r : Record}
    (new : ∀ r' ∈ records, r'.handle ≠ r.handle) (handle : Nat) :
    (records ++ [r]).findIdx? (·.handle = handle) =
      if handle = r.handle then some records.length else records.findIdx? (·.handle = handle) := by
  rw [List.findIdx?_append]
  by_cases own : handle = r.handle
  · subst own
    have missing : records.findIdx? (·.handle = r.handle) = none := by simpa using new
    simp [missing]
  · simp [List.findIdx?_cons, own, Ne.symm own]

theorem places_of_unrecorded (pictured : l.Represents c) (new : c.isRecorded handle = false) :
    l.places.get? handle = none := by
  have found := pictured.isRecorded handle
  rw [new] at found
  simpa using found

theorem Represents.recordFor_new (pictured : l.Represents c) {r : Record}
    (new : c.isRecorded r.handle = false) :
    (l.recordFor r).2 =
        (if r.owner.isComposite then .error .compositeName else .ok c.records.length) ∧
      (l.recordFor r).1.places.get? r.handle = some c.records.length ∧
      (l.recordFor r).1.Represents { c with records := c.records ++ [r] } := by
  have unknown : ∀ r' ∈ c.records, r'.handle ≠ r.handle := by
    simpa [Catalog.isRecorded] using new
  have distinct : ((c.records ++ [r]).map (·.handle)).Nodup := by
    rw [List.map_append, List.nodup_append]
    refine ⟨pictured.distinct, by simp, ?_⟩
    intro handle listed own member
    obtain ⟨r', present, rfl⟩ := List.mem_map.mp listed
    obtain rfl : own = r.handle := by simpa using member
    exact unknown r' present
  have places (handle : Nat) : (l.places.insert r.handle c.records.length).get? handle =
      (c.records ++ [r]).findIdx? (·.handle = handle) := by
    rw [findIdx?_concat unknown, ← pictured.places]
    by_cases here : handle = r.handle
    · rw [here, Table.get?_insert_self, if_pos rfl]
    · rw [Table.get?_insert_of_ne _ _ here, if_neg here]
  unfold Ledger.recordFor
  rw [places_of_unrecorded pictured new, pictured.records]
  cases composite : r.owner.isComposite with
  | true => exact ⟨rfl, Table.get?_insert_self .., rfl, distinct, places,
      owners_concat_composite pictured composite, pictured.pending, pictured.held,
      pictured.strayEmits⟩
  | false => exact ⟨rfl, Table.get?_insert_self .., rfl, distinct, places,
      owners_concat pictured composite, pictured.pending, pictured.held, pictured.strayEmits⟩

/-! ### One decorator -/

/-- Only the records, what is held and the stray events of a catalog are pictured. -/
theorem Represents.congr (pictured : l.Represents c) {c' : Catalog} (records : c'.records = c.records)
    (same : ∀ handle, c'.heldFor handle = c.heldFor handle)
    (held : ∀ handle, c.held.contains handle = true → c'.held.contains handle = true)
    (strayEmits : c'.strayEmits = c.strayEmits) : l.Represents c' := by
  have owners : c'.owners = c.owners := by rw [Catalog.owners, records, Catalog.owners]
  refine ⟨?_, ?_, ?_, ?_, fun handle => ?_, fun handle waits => held handle ?_, ?_⟩
  · exact pictured.records.trans records.symm
  · exact records ▸ pictured.distinct
  · exact records ▸ pictured.places
  · rw [owners, records]
    exact pictured.owners
  · rw [same, pictured.pending]
  · exact pictured.held handle waits
  · exact pictured.strayEmits.trans strayEmits.symm

theorem Represents.wait (pictured : l.Represents c) {f : Pending → Pending}
    (waits : (f (l.pendingFor handle)).toAnnotations = a) :
    (l.wait handle f).Represents { c with held := c.held.insert handle a } := by
  refine ⟨pictured.records, pictured.distinct, pictured.places, pictured.owners, fun handle' => ?_,
    fun handle' => ?_, pictured.strayEmits⟩
  · unfold Catalog.heldFor Ledger.wait pendingFor
    by_cases here : handle' = handle
    · rw [here, Table.get?_insert_self, Table.get?_insert_self]
      exact waits.symm
    · rw [Table.get?_insert_of_ne _ _ here, Table.get?_insert_of_ne _ _ here]
      exact pictured.pending handle'
  · rw [Ledger.wait, Table.contains_insert, Table.contains_insert]
    exact Or.imp_right (pictured.held handle')

/-- A record that is entered from annotations is amended by them, and started if there was none. -/
theorem Represents.enter (pictured : l.Represents c) {r : Record} (recorded : a.isRecorded = true)
    (own : r.handle = handle ∧ r.owner = owner)
    (starts : r.merge a = (Record.blank m handle owner).merge a)
    (passes : owner.isComposite = false ∨ c.isRecorded handle = true) :
    (l.enter r (·.merge a)).2 = .ok () ∧
      (l.enter r (·.merge a)).1.Represents (c.enter m handle owner a) := by
  obtain ⟨rfl, rfl⟩ := own
  have keeps (r : Record) : (r.merge a).handle = r.handle ∧ (r.merge a).owner = r.owner :=
    ⟨rfl, rfl⟩
  unfold Ledger.enter Catalog.enter
  cases known : c.isRecorded r.handle with
  | true =>
    obtain ⟨place, found⟩ :=
      Option.isSome_iff_exists.mp ((pictured.isRecorded r.handle).trans known)
    have same : l.recordFor r = (l, .ok place) := by rw [recordFor, found]
    rw [same]
    exact ⟨rfl, pictured.amend keeps found⟩
  | false =>
    have plain : r.owner.isComposite = false := by simpa [known] using passes
    obtain ⟨outcome, found, started⟩ := pictured.recordFor_new known
    rw [plain] at outcome
    have same : l.recordFor r = ((l.recordFor r).1, .ok c.records.length) := Prod.ext rfl outcome
    have others : (c.records.map fun r' => if r'.handle = r.handle then r'.merge a else r') =
        c.records := by
      have unknown : ∀ r' ∈ c.records, r'.handle ≠ r.handle := by
        simpa [Catalog.isRecorded] using known
      exact (List.map_congr_left fun r' member => if_neg (unknown r' member)).trans (List.map_id _)
    have amended := started.amend keeps found
    rw [same]
    refine ⟨rfl, ?_⟩
    simpa [others, starts, recorded] using amended

/-- A composite name of the class keeps a new record from being listed. -/
theorem Represents.enter_stopped (pictured : l.Represents c) {r : Record}
    (new : c.isRecorded r.handle = false) (composite : r.owner.isComposite = true)
    (f : Record → Record) :
    (l.enter r f).2 = .error .compositeName ∧
      (l.enter r f).1.Represents { c with records := c.records ++ [r] } := by
  obtain ⟨outcome, -, started⟩ := pictured.recordFor_new new
  rw [composite] at outcome
  have same : l.recordFor r = ((l.recordFor r).1, .error .compositeName) := Prod.ext rfl outcome
  rw [Ledger.enter, same]
  exact ⟨rfl, started⟩

end Ledger

theorem Decorator.isRecording_cases {d : Decorator} (recording : d.isRecording = true) :
    d.name.isText "method" = true ∨
      d.name.isText "method" = false ∧ d.name.isText "returns" = true := by
  cases method : d.name.isText "method" with
  | true => exact Or.inl rfl
  | false => exact Or.inr ⟨rfl, by simpa [Decorator.isRecording, method] using recording⟩

namespace Catalog

theorem heldFor_insert (c : Catalog) (handle : Nat) (a : Annotations) (handle' : Nat) :
    heldFor { c with held := c.held.insert handle a } handle' =
      if handle' = handle then a else c.heldFor handle' := by
  unfold heldFor
  by_cases here : handle' = handle
  · rw [here, if_pos rfl, Table.get?_insert_self]
    rfl
  · rw [if_neg here, Table.get?_insert_of_ne _ _ here]

end Catalog

namespace Ledger

variable {l : Ledger} {c : Catalog} {m : Method} {handle : Nat} {owner : Name} {a : Annotations}
  {d : Decorator}

/-- The record that a decorator starts. -/
def started (m : Method) (handle : Nat) (owner : Name) (d : Decorator) : Record :=
  { Record.blank m handle owner with
    name := ((Annotations.add m.name {} d).method.map (·.1)).getD m.name }

theorem read_recording (recording : d.isRecording = true) :
    l.read m handle owner d =
      l.enter (started m handle owner d) (·.merge (Annotations.add m.name {} d)) := by
  unfold read
  rcases Decorator.isRecording_cases recording with method | ⟨method, returns⟩
  · rw [if_pos method]
    simp [started, Annotations.add, method, Record.merge, appendAllNew]
  · rw [if_neg (by simp [method]), if_pos returns]
    simp [started, Annotations.add, method, returns, Record.merge, appendAllNew, Record.blank]

theorem merge_started (m : Method) (handle : Nat) (owner : Name) (d : Decorator) :
    (started m handle owner d).merge (Annotations.add m.name {} d) =
      (Record.blank m handle owner).merge (Annotations.add m.name {} d) := by
  cases named : (Annotations.add m.name {} d).method <;>
    simp [started, Record.merge, named, Record.blank]

theorem Represents.read_other (pictured : l.Represents c) (m : Method) (handle : Nat) (owner : Name)
    (other : d.isRecording = false) (plain : d.name.isComposite = false) :
    (l.read m handle owner d).2 = .ok () ∧
      (l.read m handle owner d).1.Represents { c with
        held := c.held.insert handle ((c.heldFor handle).add m.name d) } := by
  have others : d.name.isText "method" = false ∧ d.name.isText "returns" = false := by
    simpa [Decorator.isRecording] using other
  have waits {f : Pending → Pending} {kind : Text} (own : d.name.isText kind = true)
      (adds : (f (l.pendingFor handle)).toAnnotations =
        (l.pendingFor handle).toAnnotations.add m.name { d with name := .str kind }) :
      (l.wait handle f).Represents { c with
        held := c.held.insert handle ((c.heldFor handle).add m.name d) } := by
    refine pictured.wait (adds.trans ?_)
    rw [pictured.pending, ← Json.eq_str_of_isText own]
  unfold read
  simp only [others, plain, Bool.false_eq_true, if_false]
  split
  · next emit =>
    dsimp only
    exact ⟨rfl, waits emit rfl⟩
  split
  · next view =>
    dsimp only
    exact ⟨rfl, waits view rfl⟩
  split
  · next payable =>
    dsimp only
    exact ⟨rfl, waits payable rfl⟩
  split
  · next ownerOnly =>
    dsimp only
    exact ⟨rfl, waits ownerOnly rfl⟩
  · have same : (c.heldFor handle).add m.name d = c.heldFor handle := by
      unfold Annotations.add
      split_ifs <;> simp_all
    refine ⟨rfl, pictured.congr rfl (fun handle' => ?_) (fun handle' kept => ?_) rfl⟩
    · rw [same, Catalog.heldFor_insert]
      by_cases here : handle' = handle
      · rw [here, if_pos rfl]
      · rw [if_neg here]
    · exact Table.contains_insert.mpr (Or.inr kept)

end Ledger

namespace Catalog

variable {c : Catalog} {m : Method} {handle : Nat} {owner : Name} {a : Annotations} {d : Decorator}

theorem heldFor_hold (c : Catalog) (m : Method) (handle : Nat) (owner : Name) (a : Annotations)
    (handle' : Nat) :
    (c.hold m handle owner a).heldFor handle' =
      if handle' = handle then a.atLast else c.heldFor handle' :=
  heldFor_insert c handle a.atLast handle'

theorem isRecorded_hold (c : Catalog) (m : Method) (handle : Nat) (owner : Name)
    (a : Annotations) :
    (c.hold m handle owner a).isRecorded handle = (c.isRecorded handle || a.isRecorded) := by
  have atOnce : a.atOnce.isRecorded = a.isRecorded := rfl
  unfold hold enter
  cases known : c.isRecorded handle with
  | true =>
    obtain ⟨r, member, own⟩ := List.any_eq_true.mp known
    have own := of_decide_eq_true own
    refine List.any_eq_true.mpr ⟨r.merge a.atOnce, ?_, decide_eq_true own⟩
    exact List.mem_map.mpr ⟨r, member, if_pos own⟩
  | false =>
    rw [if_neg Bool.false_ne_true, atOnce]
    cases recorded : a.isRecorded with
    | true => simp [isRecorded, Record.merge, Record.blank]
    | false => exact known

/-- Annotations that are entered in two parts, the first of them held. -/
theorem enter_of_parts (c : Catalog) (m : Method) (handle : Nat) (owner : Name)
    (a whole rest : Annotations)
    (merged : ∀ r : Record, r.merge whole = (r.merge a.atOnce).merge rest)
    (recorded : whole.isRecorded = (a.isRecorded || rest.isRecorded))
    (emits : whole.emits = rest.emits) (held : Table Nat Annotations) :
    { c.enter m handle owner whole with held } =
      { (c.hold m handle owner a).enter m handle owner rest with held } := by
  have atOnce : a.atOnce.isRecorded = a.isRecorded := rfl
  conv_rhs => rw [enter, isRecorded_hold]
  unfold hold enter
  rw [atOnce, recorded]
  cases listed : c.isRecorded handle with
  | true =>
    have both (r : Record) : (if r.handle = handle then r.merge whole else r) =
        if (if r.handle = handle then r.merge a.atOnce else r).handle = handle then
          (if r.handle = handle then r.merge a.atOnce else r).merge rest
        else if r.handle = handle then r.merge a.atOnce else r := by
      by_cases own : r.handle = handle
      · have kept : (r.merge a.atOnce).handle = handle := own
        simp only [own, if_true, kept, merged]
      · simp only [own, if_false]
    simp only [if_true, Bool.true_or, List.map_map, Function.comp_def, both]
  | false =>
    cases before : a.isRecorded with
    | true =>
      have others {f : Record → Record} :
          (c.records.map fun r => if r.handle = handle then f r else r) = c.records := by
        have unknown : ∀ r ∈ c.records, r.handle ≠ handle := by simpa [isRecorded] using listed
        exact (List.map_congr_left fun r member => if_neg (unknown r member)).trans (List.map_id _)
      have own : (Record.blank m handle owner).handle = handle := rfl
      simp [others, merged, own]
    | false =>
      have nothing : a.method = none ∧ a.returns = none := by
        simpa [Annotations.isRecorded] using before
      have blank : (Record.blank m handle owner).merge a.atOnce = .blank m handle owner := by
        simp [Record.merge, Annotations.atOnce, nothing, Record.blank, appendAllNew]
      have stray : appendAllNew c.strayEmits a.atOnce.emits = c.strayEmits := rfl
      cases rest.isRecorded <;> simp [merged, blank, stray, emits]

/-- A `@method` or `@returns` goes on record at once. -/
theorem hold_add_recording (recording : d.isRecording = true) (c : Catalog) (m : Method)
    (handle : Nat) (owner : Name) (a : Annotations) :
    c.hold m handle owner (a.add m.name d) =
      (c.hold m handle owner a).enter m handle owner (Annotations.add m.name {} d) := by
  have kind := Decorator.isRecording_cases recording
  have atLast : (a.add m.name d).atLast = a.atLast := by
    rcases kind with method | ⟨method, returns⟩
    · simp [Annotations.add, Annotations.atLast, method]
    · simp [Annotations.add, Annotations.atLast, method, returns]
  have merged (r : Record) : r.merge (a.add m.name d).atOnce =
      (r.merge a.atOnce).merge (Annotations.add m.name {} d) := by
    rcases kind with method | ⟨method, returns⟩
    · simp [Annotations.add, Annotations.atOnce, Record.merge, appendAllNew, method]
    · simp [Annotations.add, Annotations.atOnce, Record.merge, appendAllNew, method, returns]
  have recorded : (a.add m.name d).atOnce.isRecorded =
      (a.isRecorded || (Annotations.add m.name {} d).isRecorded) := by
    have whole : (a.add m.name d).atOnce.isRecorded = (a.add m.name d).isRecorded := rfl
    simp [whole, Annotations.isRecorded_add, recording]
  have emits : (a.add m.name d).atOnce.emits = (Annotations.add m.name {} d).emits := by
    rcases kind with method | ⟨method, returns⟩
    · simp [Annotations.add, Annotations.atOnce, method]
    · simp [Annotations.add, Annotations.atOnce, method, returns]
  have entered := c.enter_of_parts m handle owner a _ _ merged recorded emits
    (c.held.insert handle a.atLast)
  rw [hold, atLast, entered]
  unfold enter
  split <;> [rfl; split <;> rfl]

/-- What was held is entered last. -/
theorem enter_eq_hold (c : Catalog) (m : Method) (handle : Nat) (owner : Name) (a : Annotations)
    (held : Table Nat Annotations) :
    { c.enter m handle owner a with held } =
      { (c.hold m handle owner a).enter m handle owner a.atLast with held } := by
  refine c.enter_of_parts m handle owner a a a.atLast (fun r => ?_) ?_ rfl held
  · simp [Record.merge, Annotations.atOnce, Annotations.atLast, appendAllNew]
  · exact (Bool.or_false _).symm

theorem records_hold_add (other : d.isRecording = false) (c : Catalog) (m : Method) (handle : Nat)
    (owner : Name) (a : Annotations) :
    (c.hold m handle owner (a.add m.name d)).records = (c.hold m handle owner a).records ∧
      (c.hold m handle owner (a.add m.name d)).strayEmits =
        (c.hold m handle owner a).strayEmits := by
  have same : (a.add m.name d).atOnce = a.atOnce := by
    unfold Annotations.add
    split_ifs <;> simp_all [Annotations.atOnce, Decorator.isRecording]
  unfold hold
  rw [same]
  exact ⟨rfl, rfl⟩

end Catalog

/-! ### Visits -/

namespace Ledger

variable {l : Ledger} {c : Catalog} {m : Method} {handle : Nat} {owner : Name} {a : Annotations}
  {d : Decorator}

theorem atLast_add (other : d.isRecording = false) (declared : Name) :
    (a.add declared d).atLast = a.atLast.add declared d := by
  unfold Annotations.add
  split_ifs <;> simp_all [Annotations.atLast, Decorator.isRecording]

/-- A decorator that does not stop the visit is taken into account. -/
theorem Represents.read_passed (pictured : l.Represents (c.hold m handle owner a))
    (plain : d.name.isComposite = false)
    (passes : d.isRecording = true →
      owner.isComposite = false ∨ (c.isRecorded handle || a.isRecorded) = true) :
    (l.read m handle owner d).2 = .ok () ∧
      (l.read m handle owner d).1.Represents (c.hold m handle owner (a.add m.name d)) := by
  cases recording : d.isRecording with
  | true =>
    rw [read_recording recording, c.hold_add_recording recording]
    refine pictured.enter ?_ ⟨rfl, rfl⟩ (merge_started m handle owner d) ?_
    · rw [Annotations.isRecorded_add, recording, Bool.or_true]
    · rw [Catalog.isRecorded_hold]
      exact passes recording
  | false =>
    obtain ⟨outcome, read⟩ := pictured.read_other m handle owner recording plain
    obtain ⟨records, strayEmits⟩ := c.records_hold_add recording m handle owner a
    refine ⟨outcome, read.congr records (fun handle' => ?_) (fun handle' kept => ?_) strayEmits⟩
    · rw [Catalog.heldFor_insert, Catalog.heldFor_hold, Catalog.heldFor_hold, Catalog.heldFor_hold,
        if_pos rfl, atLast_add recording]
      by_cases here : handle' = handle
      · rw [if_pos here, if_pos here]
      · rw [if_neg here, if_neg here, if_neg here]
    · have before := Table.contains_insert.mp kept
      exact Table.contains_insert.mpr (before.elim Or.inl Table.contains_insert.mp)

/-- A decorator that stops the visit does so here as well. -/
theorem Represents.read_stopped (pictured : l.Represents (c.hold m handle owner a))
    (unread : owner.isComposite = true → c.isRecorded handle = false → a.isRecorded = false)
    (stopped : c.stops handle owner d = true) :
    (l.read m handle owner d).2 = .error .compositeName ∧
      (l.read m handle owner d).1.Represents (let held := c.hold m handle owner a
        if d.name.isComposite then held else held.startRecord m handle owner d) := by
  cases composite : d.name.isComposite with
  | true =>
    have same : l.read m handle owner d = (l, .error .compositeName) := by
      obtain ⟨name, args⟩ := d
      cases name <;> simp_all [Json.isComposite, read, Json.isText]
    rw [same]
    exact ⟨rfl, pictured⟩
  | false =>
    have cause : (owner.isComposite = true ∧ d.isRecording = true) ∧ c.isRecorded handle = false := by
      simpa [Catalog.stops, composite] using stopped
    obtain ⟨⟨owned, recording⟩, unrecorded⟩ := cause
    have new : (c.hold m handle owner a).isRecorded handle = false := by
      rw [Catalog.isRecorded_hold, unrecorded, unread owned unrecorded]
      rfl
    rw [read_recording recording]
    exact pictured.enter_stopped new owned _

/-- Induction on the decorators, with what the earlier ones have come to in `a`. -/
theorem Represents.readAll (pictured : l.Represents (c.hold m handle owner a))
    (unread : owner.isComposite = true → c.isRecorded handle = false → a.isRecorded = false)
    (ds : List Decorator) :
    (l.readAll m handle owner ds).2 =
        (if ds.any (c.stops handle owner) then .error .compositeName else .ok ()) ∧
      (l.readAll m handle owner ds).1.Represents (
        let held := c.hold m handle owner
          (Annotations.addAll m.name a (ds.takeWhile (!c.stops handle owner ·)))
        match ds.find? (c.stops handle owner) with
        | none => held
        | some d => if d.name.isComposite then held else held.startRecord m handle owner d) := by
  induction ds generalizing l a with
  | nil => exact ⟨rfl, pictured⟩
  | cons d ds ih =>
    cases stopped : c.stops handle owner d with
    | true =>
      obtain ⟨outcome, read⟩ := pictured.read_stopped unread stopped
      have same : l.read m handle owner d = ((l.read m handle owner d).1, .error .compositeName) :=
        Prod.ext rfl outcome
      rw [Ledger.readAll, same, List.any_cons, stopped, List.find?_cons_of_pos stopped,
        List.takeWhile_cons_of_neg (by simp [stopped])]
      exact ⟨rfl, read⟩
    | false =>
      have free : d.name.isComposite = false ∧
          (owner.isComposite = true → d.isRecording = true → c.isRecorded handle = true) := by
        simpa [Catalog.stops] using stopped
      obtain ⟨outcome, read⟩ := pictured.read_passed free.1 fun recording => by
        cases owned : owner.isComposite with
        | true => exact Or.inr (by rw [free.2 owned recording, Bool.true_or])
        | false => exact Or.inl rfl
      have same : l.read m handle owner d = ((l.read m handle owner d).1, .ok ()) :=
        Prod.ext rfl outcome
      rw [Ledger.readAll, same, List.any_cons, stopped, Bool.false_or,
        List.find?_cons_of_neg (by simp [stopped]), List.takeWhile_cons_of_pos (by simp [stopped])]
      refine ih read fun owned unrecorded => ?_
      rw [Annotations.isRecorded_add, unread owned unrecorded, Bool.false_or]
      refine Bool.eq_false_iff.mpr fun recording => ?_
      simp [free.2 owned recording] at unrecorded

/-- What has waited is entered after the last decorator. -/
theorem Represents.settle (pictured : l.Represents (c.hold m handle owner a)) :
    (l.settle handle).Represents
      { c.enter m handle owner a with held := c.held.erase handle } := by
  have waiting : (l.pendingFor handle).toAnnotations = a.atLast := by
    rw [← pictured.pending, Catalog.heldFor_hold, if_pos rfl]
  have popped : Represents { l with pending := l.pending.erase handle }
      { c.hold m handle owner a with held := c.held.erase handle } := by
    refine ⟨pictured.records, pictured.distinct, pictured.places, pictured.owners, fun handle' => ?_,
      fun handle' => ?_, pictured.strayEmits⟩
    · have before := pictured.pending handle'
      rw [Catalog.heldFor_hold] at before
      unfold Catalog.heldFor pendingFor at *
      rw [Table.get?_erase, Table.get?_erase]
      by_cases here : handle' = handle
      · rw [if_pos here, if_pos here]
        rfl
      · rw [if_neg here, if_neg here, ← before, if_neg here]
    · have before := pictured.held handle'
      rw [Catalog.hold, Table.contains_insert] at before
      rw [Table.contains_erase, Table.contains_erase]
      exact fun kept => ⟨kept.1, (before kept.2).resolve_left kept.1⟩
  rw [Catalog.enter_eq_hold]
  unfold Ledger.settle Catalog.enter
  cases known : (c.hold m handle owner a).isRecorded handle with
  | true =>
    obtain ⟨place, found⟩ := Option.isSome_iff_exists.mp ((pictured.isRecorded handle).trans known)
    dsimp only
    rw [found, waiting]
    exact popped.amend (f := (·.merge a.atLast)) (fun _ => ⟨rfl, rfl⟩) found
  | false =>
    have emits : (l.pendingFor handle).emits = a.atLast.emits := congrArg Annotations.emits waiting
    dsimp only
    rw [places_of_unrecorded pictured known]
    refine ⟨popped.records, popped.distinct, popped.places, popped.owners, popped.pending,
      popped.held, ?_⟩
    rw [popped.strayEmits, emits]
    rfl

/-- Before the first decorator there is nothing to enter. -/
theorem Represents.hold (pictured : l.Represents c) (m : Method) (handle : Nat) (owner : Name) :
    l.Represents (c.hold m handle owner (c.heldFor handle)) := by
  have nothing : (c.heldFor handle).atOnce = {} ∧
      (c.heldFor handle).atLast = c.heldFor handle := by
    rw [pictured.pending]
    exact ⟨rfl, rfl⟩
  have merged (r : Record) : r.merge {} = r := by simp [Record.merge, appendAllNew]
  have entered : (c.enter m handle owner {}).records = c.records ∧
      (c.enter m handle owner {}).strayEmits = c.strayEmits := by
    unfold Catalog.enter
    split
    · simp [merged]
    · exact ⟨rfl, rfl⟩
  refine pictured.congr ?_ (fun handle' => ?_) (fun handle' kept => ?_) ?_
  · rw [Catalog.hold, nothing.1]
    exact entered.1
  · rw [Catalog.heldFor_hold, nothing.2]
    by_cases here : handle' = handle
    · rw [if_pos here, here]
    · rw [if_neg here]
  · exact Table.contains_insert.mpr (Or.inr kept)
  · rw [Catalog.hold, nothing.1]
    exact entered.2

/-- Where a catalog pictures a ledger, it does so after any visit of a method. -/
theorem visit_represents (pictured : l.Represents c) (m : Method) (handle : Nat) (owner : Name) :
    (l.visit m handle owner).2 = (c.visit m handle owner).2 ∧
      (l.visit m handle owner).1.Represents (c.visit m handle owner).1 := by
  have nothing : (c.heldFor handle).isRecorded = false := by
    rw [pictured.pending]
    rfl
  obtain ⟨outcome, read⟩ := (pictured.hold m handle owner).readAll (fun _ _ => nothing) m.decorators
  unfold Ledger.visit Catalog.visit
  generalize l.readAll m handle owner m.decorators = reached at outcome read
  obtain ⟨after, last⟩ := reached
  cases found : m.decorators.find? (c.stops handle owner) with
  | none =>
    have passed : m.decorators.any (c.stops handle owner) = false := by simpa using found
    rw [passed] at outcome
    rw [found] at read
    obtain rfl : last = .ok () := outcome
    exact ⟨rfl, read.settle⟩
  | some d =>
    have stopped : m.decorators.any (c.stops handle owner) = true :=
      List.any_eq_true.mpr ⟨d, List.mem_of_find?_eq_some found, List.find?_some found⟩
    rw [stopped] at outcome
    rw [found] at read
    obtain rfl : last = .error .compositeName := outcome
    exact ⟨rfl, read⟩

end Ledger

end ContractAbi
