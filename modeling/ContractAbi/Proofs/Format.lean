import ContractAbi.Proofs.Failure
import ContractAbi.Proofs.Loading

/-!
# The format of dumps

`IsDump` says what a dump has to look like, and loading accepts exactly that: `load_completes`. What
is loaded has one declaration for each element of the dump, in the same order: `describes_ofDump`.
-/

namespace ContractAbi

namespace Dump

/-! ### What a dump may hold -/

/-- The value is given as a list of such elements. An empty text and an empty object will do for a
list without elements, and nothing else that is not an array. -/
def IsListOf (P : Json → Prop) : Json → Prop
  | .arr elements => ∀ v ∈ elements, P v
  | .str s => s = ""
  | .obj members => members = []
  | _ => False

/-- The value is an object with this key. -/
def HasKey (v : Json) (key : Text) : Prop :=
  ∃ value, v.member? key = some value

structure IsDecorator (v : Json) : Prop where
  name : HasKey v "name"
  args : ∃ args : List Text, optional v "args" (.arr []) = .arr (args.map .str)

/-- Whatever says nothing will do for a list without decorators. -/
def IsDecorators (v : Json) : Prop :=
  v.isTruthy = true → IsListOf IsDecorator v

structure IsMember (v : Json) : Prop where
  kind : v.member? "kind" = some (.str "method") ∨ v.member? "kind" = some (.str "field")
  name : HasKey v "name"
  decorators : IsDecorators (optional v "decorators" (.arr []))

structure IsClass (v : Json) : Prop where
  name : HasKey v "name"
  members : IsListOf IsMember (optional v "members" (.arr []))
  decorators : IsDecorators (optional v "decorators" (.arr []))

structure IsSource (v : Json) : Prop where
  path : HasKey v "path"
  classes : IsListOf IsClass (optional v "classes" (.arr []))

def IsDump (v : Json) : Prop :=
  ∃ sources, v.member? "sources" = some sources ∧ IsListOf IsSource sources

/-! ### What is accepted -/

theorem require_eq_ok {v value : Json} {key place : Text} :
    require v key place = .ok value ↔ v.member? key = some value := by
  unfold require
  cases v.member? key <;> simp

theorem texts?_eq_some {v : Json} {args : List Text} :
    texts? v = some args ↔ v = .arr (args.map .str) := by
  have elements (vs : List Json) (args : List Text) :
      vs.mapM Json.text? = some args ↔ vs = args.map .str := by
    induction vs generalizing args with
    | nil => cases args <;> simp
    | cons v vs ih =>
      cases v <;> cases args <;> simp [Json.text?, Option.bind_eq_some_iff, ih, and_comm]
  cases v <;> simp [texts?, elements]

/-- The items of a text are texts and those of an object are its keys. -/
theorem items_cases (v : Json) :
    (∃ elements, v = .arr elements) ∨
      (∃ texts : List Text, items v = .ok (texts.map .str) ∧ ∀ P, IsListOf P v ↔ texts = []) ∨
      items v = .error .notIterable ∧ ∀ P, ¬ IsListOf P v := by
  cases v with
  | arr elements => exact Or.inl ⟨elements, rfl⟩
  | str s =>
    refine Or.inr (Or.inl ⟨s.toList.map fun c => .ofList [c], ?_, fun P => ?_⟩)
    · simp [items]
    · simp [IsListOf, Text.toList_eq_nil]
  | obj members =>
    refine Or.inr (Or.inl ⟨members.map (·.1), ?_, fun P => ?_⟩)
    · simp [items]
    · simp [IsListOf]
  | _ => exact Or.inr (Or.inr ⟨rfl, fun P => id⟩)

/-- Loading each item comes to its end if the value is a list of what can be loaded. No text can,
so there are no items unless the value is an array. -/
theorem items_mapM_completes {β : Type} {f : Json → Except Fault β} {P : Json → Prop}
    (each : ∀ v, (∃ y, f v = .ok y) ↔ P v) (noText : ∀ s, ¬ P (.str s)) (v : Json) :
    (∃ vs, items v = .ok vs ∧ ∃ ys, vs.mapM f = .ok ys) ↔ IsListOf P v := by
  have mapM (vs : List Json) : (∃ ys, vs.mapM f = .ok ys) ↔ ∀ v ∈ vs, P v := by
    rw [← failure?_eq_none, failure?_mapM, List.findSome?_eq_none_iff]
    simp only [failure?_eq_none, each]
  simp only [mapM]
  rcases items_cases v with ⟨elements, rfl⟩ | ⟨texts, given, empty⟩ | ⟨refused, none⟩
  · simp [items, IsListOf]
  · rw [given, empty]
    simp [noText, List.eq_nil_iff_forall_not_mem]
  · simp [refused, none]

theorem not_hasKey_str (key s : Text) : ¬ HasKey (.str s) key := nofun

theorem loadDecorator_completes (place : Text) (v : Json) :
    (∃ d, loadDecorator place v = .ok d) ↔ IsDecorator v := by
  unfold loadDecorator
  simp only [bind_eq_ok, require_eq_ok]
  constructor
  · rintro ⟨d, name, named, made⟩
    refine ⟨⟨name, named⟩, ?_⟩
    split at made
    · rename_i args given
      exact ⟨args, texts?_eq_some.mp given⟩
    · cases made
  · rintro ⟨⟨name, named⟩, args, given⟩
    exact ⟨⟨name, args⟩, name, named, by rw [texts?_eq_some.mpr given]; rfl⟩

theorem loadDecorators_completes (place : Text) (v : Json) :
    (∃ ds, loadDecorators place v = .ok ds) ↔ IsDecorators v := by
  have each := items_mapM_completes (loadDecorator_completes place)
    (fun s decorator => not_hasKey_str _ s decorator.name) v
  unfold loadDecorators IsDecorators
  cases v.isTruthy with
  | false => exact iff_of_true ⟨[], rfl⟩ nofun
  | true =>
    simp only [if_true, forall_const, ← each, bind_eq_ok]
    rw [exists_comm]
    simp only [exists_and_left]

theorem loadMember_completes (place : Text) (v : Json) :
    (∃ m, loadMember place v = .ok m) ↔ IsMember v := by
  unfold loadMember
  simp only [bind_eq_ok, require_eq_ok]
  constructor
  · rintro ⟨m, kind, kinded, name, named, ds, loaded, made⟩
    refine ⟨?_, ⟨name, named⟩, (loadDecorators_completes _ _).mp ⟨ds, loaded⟩⟩
    split_ifs at made with method field
    · exact Or.inl (Json.eq_str_of_isText method ▸ kinded)
    · exact Or.inr (Json.eq_str_of_isText field ▸ kinded)
  · rintro ⟨kinded, ⟨name, named⟩, decorators⟩
    obtain ⟨ds, loaded⟩ := (loadDecorators_completes _ _).mpr decorators
    rcases kinded with kinded | kinded
    · exact ⟨_, _, kinded, name, named, ds, loaded, rfl⟩
    · exact ⟨_, _, kinded, name, named, ds, loaded, rfl⟩

theorem loadClass_completes (place : Text) (v : Json) :
    (∃ c, loadClass place v = .ok c) ↔ IsClass v := by
  have each (place : Text) := items_mapM_completes (loadMember_completes place)
    (fun s member => not_hasKey_str _ s member.name) (optional v "members" (.arr []))
  unfold loadClass
  simp only [bind_eq_ok, require_eq_ok]
  constructor
  · rintro ⟨c, name, named, vs, given, members, loaded, ds, decorated, -⟩
    exact ⟨⟨name, named⟩, (each _).mp ⟨vs, given, members, loaded⟩,
      (loadDecorators_completes _ _).mp ⟨ds, decorated⟩⟩
  · rintro ⟨⟨name, named⟩, members, decorators⟩
    obtain ⟨vs, given, members, loaded⟩ := (each _).mpr members
    obtain ⟨ds, decorated⟩ := (loadDecorators_completes _ _).mpr decorators
    exact ⟨_, name, named, vs, given, members, loaded, ds, decorated, rfl⟩

theorem loadSource_completes (v : Json) : (∃ s, loadSource v = .ok s) ↔ IsSource v := by
  have each (place : Text) := items_mapM_completes (loadClass_completes place)
    (fun s declaration => not_hasKey_str _ s declaration.name) (optional v "classes" (.arr []))
  unfold loadSource
  simp only [bind_eq_ok, require_eq_ok]
  constructor
  · rintro ⟨s, path, found, vs, given, classes, loaded, -⟩
    exact ⟨⟨path, found⟩, (each _).mp ⟨vs, given, classes, loaded⟩⟩
  · rintro ⟨⟨path, found⟩, classes⟩
    obtain ⟨vs, given, classes, loaded⟩ := (each _).mpr classes
    exact ⟨_, path, found, vs, given, classes, loaded, rfl⟩

theorem load_completes (v : Json) : (∃ dump, load v = .ok dump) ↔ IsDump v := by
  have each := items_mapM_completes loadSource_completes
    (fun s source => not_hasKey_str _ s source.path)
  unfold load IsDump
  simp only [bind_eq_ok, require_eq_ok, ← each]
  constructor
  · rintro ⟨dump, sources, found, vs, given, loaded⟩
    exact ⟨sources, found, vs, given, dump, loaded⟩
  · rintro ⟨sources, found, vs, given, dump, loaded⟩
    exact ⟨dump, sources, found, vs, given, loaded⟩

end Dump

/-! ### What is loaded -/

/-- The elements of what is given as a list. -/
def Json.elements : Json → List Json
  | arr elements => elements
  | _ => []

namespace Dump

/-- What stands under a key, or an empty array. -/
def listAt (v : Json) (key : Text) : List Json :=
  (optional v key (.arr [])).elements

end Dump

open Dump (optional listAt)

structure Decorator.IsDescribedBy (v : Json) (d : Decorator) : Prop where
  name : v.member? "name" = some d.name
  args : listAt v "args" = d.args.map .str

/-- Decorators are described one by one, in the same order. -/
def Decorator.AreDescribedBy (v : Json) (ds : List Decorator) : Prop :=
  List.Forall₂ Decorator.IsDescribedBy (listAt v "decorators") ds

structure Method.IsDescribedBy (v : Json) (m : Method) : Prop where
  kind : v.member? "kind" = some (.str "method")
  name : v.member? "name" = some m.name
  decorators : Decorator.AreDescribedBy v m.decorators
  body : m.body = none

structure Field.IsDescribedBy (v : Json) (f : Field) : Prop where
  kind : v.member? "kind" = some (.str "field")
  name : v.member? "name" = some f.name
  type : f.type = optional v "type" .null
  decorators : Decorator.AreDescribedBy v f.decorators

def Member.IsDescribedBy (v : Json) : Member → Prop
  | method m => m.IsDescribedBy v
  | field f => f.IsDescribedBy v

structure Class.IsDescribedBy (v : Json) (c : Class) : Prop where
  name : v.member? "name" = some c.name
  members : List.Forall₂ Member.IsDescribedBy (listAt v "members") c.members
  decorators : Decorator.AreDescribedBy v c.decorators
  base : c.base = optional v "extends" .null

structure Source.IsDescribedBy (v : Json) (s : Source) : Prop where
  path : v.member? "path" = some s.path
  classes : List.Forall₂ Class.IsDescribedBy (listAt v "classes") s.classes
  isLibrary : s.isLibrary = (optional v "isLibrary" (.bool false)).isTruthy

namespace Dump

theorem items_eq_elements {P : Json → Prop} {v : Json} (list : IsListOf P v) :
    items v = .ok v.elements := by
  cases v with
  | arr elements => rfl
  | str s =>
    obtain rfl : s = "" := list
    rfl
  | obj members =>
    obtain rfl : members = [] := list
    rfl
  | _ => cases list

theorem elements_of_not_isTruthy {v : Json} (empty : ¬ v.isTruthy = true) : v.elements = [] := by
  cases v with
  | arr elements => simpa [Json.isTruthy, Json.elements] using empty
  | _ => rfl

theorem forall₂_of_mapM {β : Type} {f : Json → Except Fault β} {P : Json → Prop}
    {R : Json → β → Prop} {v : Json} {vs : List Json} {ys : List β}
    (completes : ∀ v, (∃ y, f v = .ok y) ↔ P v) (noText : ∀ s, ¬ P (.str s))
    (each : ∀ v y, f v = .ok y → R v y) (given : items v = .ok vs) (loaded : vs.mapM f = .ok ys) :
    List.Forall₂ R v.elements ys := by
  have list := (items_mapM_completes completes noText v).mp ⟨vs, given, ys, loaded⟩
  rw [items_eq_elements list] at given
  cases given
  exact (mapM_eq_ok.mp loaded).imp each

variable {place : Text} {v : Json}

theorem loadDecorator_describes {d : Decorator} (h : loadDecorator place v = .ok d) :
    d.IsDescribedBy v := by
  unfold loadDecorator at h
  simp only [bind_eq_ok, require_eq_ok] at h
  obtain ⟨name, named, made⟩ := h
  split at made
  · rename_i args given
    cases made
    refine ⟨named, ?_⟩
    rw [listAt, texts?_eq_some.mp given]
    rfl
  · cases made

theorem loadDecorators_describes {ds : List Decorator}
    (h : loadDecorators place (optional v "decorators" (.arr [])) = .ok ds) :
    Decorator.AreDescribedBy v ds := by
  unfold loadDecorators at h
  unfold Decorator.AreDescribedBy listAt
  split at h
  · obtain ⟨vs, given, loaded⟩ := bind_ok h
    exact forall₂_of_mapM (loadDecorator_completes place)
      (fun s decorator => not_hasKey_str _ s decorator.name) (fun _ _ => loadDecorator_describes)
      given loaded
  · rename_i empty
    cases h
    rw [elements_of_not_isTruthy empty]
    exact .nil

theorem loadMember_describes {m : Member} (h : loadMember place v = .ok m) :
    m.loaded.IsDescribedBy v := by
  unfold loadMember at h
  simp only [bind_eq_ok, require_eq_ok] at h
  obtain ⟨kind, kinded, name, named, ds, decorated, made⟩ := h
  have decorators := loadDecorators_describes decorated
  split_ifs at made with method field
  · cases made
    exact ⟨Json.eq_str_of_isText method ▸ kinded, named, decorators, rfl⟩
  · cases made
    exact ⟨Json.eq_str_of_isText field ▸ kinded, named, rfl, decorators⟩

theorem loadClass_describes {c : Class} (h : loadClass place v = .ok c) :
    c.loaded.IsDescribedBy v := by
  unfold loadClass at h
  simp only [bind_eq_ok, require_eq_ok] at h
  obtain ⟨name, named, vs, given, members, loaded, ds, decorated, made⟩ := h
  cases made
  refine ⟨named, ?_, loadDecorators_describes decorated, rfl⟩
  exact List.forall₂_map_right_iff.mpr (forall₂_of_mapM (loadMember_completes _)
    (fun s member => not_hasKey_str _ s member.name) (fun _ _ => loadMember_describes) given loaded)

theorem loadSource_describes {s : Source} (h : loadSource v = .ok s) :
    s.loaded.IsDescribedBy v := by
  unfold loadSource at h
  simp only [bind_eq_ok, require_eq_ok] at h
  obtain ⟨path, found, vs, given, classes, loaded, made⟩ := h
  cases made
  refine ⟨found, ?_, rfl⟩
  exact List.forall₂_map_right_iff.mpr (forall₂_of_mapM (loadClass_completes _)
    (fun s declaration => not_hasKey_str _ s declaration.name) (fun _ _ => loadClass_describes)
    given loaded)

end Dump

/-! Keys are no part of what a dump describes. -/

theorem Member.isDescribedBy_unkeyed {v : Json} {m : Member} :
    m.unkeyed.IsDescribedBy v ↔ m.IsDescribedBy v := by
  cases m with
  | method m => exact ⟨fun h => ⟨h.kind, h.name, h.decorators, h.body⟩,
      fun h => ⟨h.kind, h.name, h.decorators, h.body⟩⟩
  | field f => exact Iff.rfl

theorem Class.isDescribedBy_unkeyed {v : Json} {c : Class} :
    c.unkeyed.IsDescribedBy v ↔ c.IsDescribedBy v := by
  have members : List.Forall₂ Member.IsDescribedBy (listAt v "members") c.unkeyed.members ↔
      List.Forall₂ Member.IsDescribedBy (listAt v "members") c.members := by
    unfold unkeyed
    simp only [List.forall₂_map_right_iff, Member.isDescribedBy_unkeyed]
  exact ⟨fun h => ⟨h.name, members.mp h.members, h.decorators, h.base⟩,
    fun h => ⟨h.name, members.mpr h.members, h.decorators, h.base⟩⟩

theorem Source.isDescribedBy_unkeyed {v : Json} {s : Source} :
    s.unkeyed.IsDescribedBy v ↔ s.IsDescribedBy v := by
  have classes : List.Forall₂ Class.IsDescribedBy (listAt v "classes") s.unkeyed.classes ↔
      List.Forall₂ Class.IsDescribedBy (listAt v "classes") s.classes := by
    unfold unkeyed
    simp only [List.forall₂_map_right_iff, Class.isDescribedBy_unkeyed]
  exact ⟨fun h => ⟨h.path, classes.mp h.classes, h.isLibrary⟩,
    fun h => ⟨h.path, classes.mpr h.classes, h.isLibrary⟩⟩

namespace Dump

theorem describes_ofDump {v : Json} {dump : List Source} (h : load v = .ok dump) :
    List.Forall₂ Source.IsDescribedBy (listAt v "sources") (Codebase.ofDump dump).sources := by
  unfold load at h
  simp only [bind_eq_ok, require_eq_ok] at h
  obtain ⟨sources, found, vs, given, loaded⟩ := h
  have each := List.forall₂_map_right_iff.mpr (forall₂_of_mapM loadSource_completes
    (fun s source => not_hasKey_str _ s source.path) (fun _ _ => loadSource_describes) given loaded)
  rw [← Codebase.unkeyed_sources_ofDump, List.forall₂_map_right_iff] at each
  rw [listAt, optional, found]
  exact each.imp fun _ _ => Source.isDescribedBy_unkeyed.mp

/-- Loading accepts exactly the dumps. Everything in a dump is then declared once, in the order of
the dump, and no method has a handle yet. -/
theorem load_accepts_exactly_dumps (v : Json) :
    ((∃ dump, load v = .ok dump) ↔ IsDump v) ∧
      ∀ dump, load v = .ok dump →
        List.Forall₂ Source.IsDescribedBy (listAt v "sources") (Codebase.ofDump dump).sources ∧
        (Codebase.ofDump dump).IsFresh ∧
        ∀ m ∈ (Codebase.ofDump dump).methods, (Codebase.ofDump dump).handles.get? m.key = none :=
  ⟨load_completes v, fun dump h =>
    ⟨describes_ofDump h, Codebase.isFresh_ofDump dump, fun _ _ => rfl⟩⟩

/-- A shop with a method and a field, and a library that has an empty text for its classes. -/
def bakery : Json :=
  .obj [("sources", .arr [
    .obj [("path", .str "bakery.ts"), ("isLibrary", .int 0), ("classes", .arr [
      .obj [("name", .str "Bakery"), ("extends", .str "Shop"), ("decorators", .null),
        ("members", .arr [
          .obj [("kind", .str "method"), ("name", .str "bake"), ("decorators", .arr [
            .obj [("name", .str "method"), ("args", .arr [.str "'uint256'"])],
            .obj [("name", .str "view")]])],
          .obj [("kind", .str "field"), ("name", .str "ovens"), ("type", .str "u8")]])]])],
    .obj [("path", .str "flour.ts"), ("isLibrary", .str "yes"), ("classes", .str "")]])]

/-- An empty text will do for the classes of a source, but no other text will do for a list. -/
theorem load_of_bakery :
    IsDump bakery ∧
    (∃ dump, load bakery = .ok dump ∧ dump.length = 2 ∧
      List.Forall₂ Source.IsDescribedBy (listAt bakery "sources") (Codebase.ofDump dump).sources ∧
      (Codebase.ofDump dump).IsFresh ∧
      ∀ m ∈ (Codebase.ofDump dump).methods, (Codebase.ofDump dump).handles.get? m.key = none) ∧
    ¬ ∃ dump, load (.obj [("sources", .str "bakery.ts")]) = .ok dump := by
  obtain ⟨dump, loaded, two⟩ : ∃ dump, load bakery = .ok dump ∧ dump.length = 2 := ⟨_, rfl, rfl⟩
  obtain ⟨accepts, describes⟩ := load_accepts_exactly_dumps bakery
  refine ⟨accepts.mp ⟨dump, loaded⟩, ⟨dump, loaded, two, describes dump loaded⟩, ?_⟩
  rw [(load_accepts_exactly_dumps _).1]
  rintro ⟨sources, found, list⟩
  cases found
  have empty : ("bakery.ts" : Text) = "" := list
  exact absurd empty (by decide)

end Dump

end ContractAbi
