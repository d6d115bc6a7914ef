import ContractAbi.Proofs.Dispatchers
import Mathlib.Data.List.Nodup

/-!
# Methods that a routine replaces

A routine takes the place of the first method of its name and leaves all other members. So a routed
method is lost if and only if it is the only method `execute` of its class: its guard then calls the
routine itself.
-/

namespace ContractAbi

namespace Class

variable {c : Class} {m : Method}

theorem exists_first (c : Class) (name : Name) :
    (∀ x ∈ c.members, x.isMethodNamed name = false) ∨
      ∃ before own after, c.members = before ++ .method own :: after ∧ own.name = name ∧
        ∀ x ∈ before, x.isMethodNamed name = false := by
  cases found : c.members.find? (Member.isMethodNamed name) with
  | none => exact Or.inl fun x member => by simpa using List.find?_eq_none.mp found x member
  | some x =>
    obtain ⟨named, before, after, split, first⟩ := List.find?_eq_some_iff_append.mp found
    cases x with
    | field f => cases named
    | method own =>
      refine Or.inr ⟨before, own, after, split, ?_, ?_⟩
      · simpa [Member.isMethodNamed, Member.method?] using named
      · exact fun x member => by simpa using first x member

theorem findMethod?_of_none {name : Name} (none : ∀ x ∈ c.members, x.isMethodNamed name = false) :
    c.findMethod? name = .none :=
  List.findIdx?_eq_none_iff.mpr none

theorem findMethod?_of_first {before after : List Member} {own : Method} {name : Name}
    (members : c.members = before ++ .method own :: after) (named : own.name = name)
    (first : ∀ x ∈ before, x.isMethodNamed name = false) :
    c.findMethod? name = some before.length := by
  unfold findMethod?
  rw [members, List.findIdx?_append, List.findIdx?_eq_none_iff.mpr first]
  simp [List.findIdx?_cons, Member.isMethodNamed, Member.method?, named]

theorem splice_of_none (none : ∀ x ∈ c.members, x.isMethodNamed m.name = false) :
    (c.splice m).1 = { c with members := c.members ++ [.method m] } := by
  unfold splice
  rw [findMethod?_of_none none]

theorem splice_of_first {before after : List Member} {own : Method}
    (members : c.members = before ++ .method own :: after) (named : own.name = m.name)
    (first : ∀ x ∈ before, x.isMethodNamed m.name = false) :
    (c.splice m).1 = { c with members := before ++ .method m :: after } := by
  unfold splice
  rw [findMethod?_of_first members named first]
  simp [members]

theorem splice_splice (c : Class) {m m' : Method} (same : m'.name = m.name) :
    ((c.splice m).1.splice m').1 = (c.splice m').1 := by
  rcases c.exists_first m.name with none | ⟨before, own, after, members, named, first⟩
  · have alone : (c.splice m').1 = { c with members := c.members ++ [.method m'] } :=
      splice_of_none (same ▸ none)
    rw [splice_of_none none, alone, splice_of_first rfl same.symm (same ▸ none)]
  · have alone : (c.splice m').1 = { c with members := before ++ .method m' :: after } :=
      splice_of_first members (named.trans same.symm) (same ▸ first)
    rw [splice_of_first members named first, alone, splice_of_first rfl same.symm (same ▸ first)]

theorem splice_eq (c : Class) (m : Method) :
    (c.splice m).1 = { c with members := (c.splice m).1.members } := by
  unfold splice
  split <;> rfl

theorem fields_splice (c : Class) (m : Method) : (c.splice m).1.fields = c.fields := by
  rcases c.exists_first m.name with none | ⟨before, own, after, members, named, first⟩
  · rw [splice_of_none none]
    simp [fields, Member.field?]
  · rw [splice_of_first members named first]
    simp [fields, members, List.filterMap_cons, Member.field?]

/-- Besides the method itself, the methods are as before, but for the one in whose place it is. -/
theorem methods_splice (c : Class) (m : Method) : ∃ before old after,
    c.methods = before ++ old ++ after ∧ (c.splice m).1.methods = before ++ m :: after ∧
      (∀ own ∈ before, own.name ≠ m.name) ∧
      (old = [] ∧ after = [] ∨ ∃ own, own.name = m.name ∧ old = [own]) := by
  have others {xs : List Member} (none : ∀ x ∈ xs, x.isMethodNamed m.name = false) :
      ∀ own ∈ xs.filterMap Member.method?, own.name ≠ m.name := by
    intro own member
    obtain ⟨x, inside, same⟩ := List.mem_filterMap.mp member
    simpa [Member.isMethodNamed, same] using none x inside
  rcases c.exists_first m.name with none | ⟨before, own, after, members, named, first⟩
  · refine ⟨c.methods, [], [], by simp, ?_, others none, Or.inl ⟨rfl, rfl⟩⟩
    rw [splice_of_none none]
    simp [methods, Member.method?]
  · refine ⟨before.filterMap Member.method?, [own], after.filterMap Member.method?, ?_, ?_,
      others first, Or.inr ⟨own, named, rfl⟩⟩
    · simp [methods, members, Member.method?]
    · rw [splice_of_first members named first]
      simp [methods, Member.method?]

/-- There is a method of that name that has not been synthesized. -/
def Keeps (c : Class) (name : Name) : Prop :=
  ∃ own ∈ c.methods, own.body = none ∧ own.name = name

/-- A routine takes away the only method of its name, and no other. -/
theorem keeps_splice_iff (unwritten : ∀ own ∈ c.methods, own.body = none) (written : m.body ≠ none)
    {own : Method} (member : own ∈ c.methods) :
    (c.splice m).1.Keeps own.name ↔
      (own.name = m.name → 2 ≤ c.methods.countP (·.name = m.name)) := by
  obtain ⟨before, old, after, split, spliced, first, place⟩ := c.methods_splice m
  have none : before.countP (·.name = m.name) = 0 :=
    List.countP_eq_zero.mpr fun x inside => by simpa using first x inside
  unfold Keeps
  rw [spliced]
  constructor
  · rintro ⟨kept, inside, unsynthesized, same⟩ named
    have later : kept ∈ after := by
      rcases List.mem_append.mp inside with earlier | inside
      · exact absurd (same.trans named) (first kept earlier)
      · refine (List.mem_cons.mp inside).resolve_left ?_
        rintro rfl
        exact written unsynthesized
    have more : 0 < after.countP (·.name = m.name) :=
      List.countP_pos_iff.mpr ⟨kept, later, by simpa using same.trans named⟩
    rcases place with ⟨-, rfl⟩ | ⟨replaced, name, rfl⟩
    · cases later
    · have one : [replaced].countP (·.name = m.name) = 1 := by simp [name]
      rw [split, List.countP_append, List.countP_append]
      omega
  · intro enough
    by_cases named : own.name = m.name
    · have several := enough named
      rw [split, List.countP_append, List.countP_append, none] at several
      have atMost : old.countP (·.name = m.name) ≤ 1 := by
        rcases place with ⟨rfl, -⟩ | ⟨replaced, -, rfl⟩
        · exact Nat.zero_le 1
        · exact List.countP_le_length
      obtain ⟨kept, later, same⟩ := List.countP_pos_iff.mp
        (show 0 < after.countP (·.name = m.name) by omega)
      have listed : kept ∈ c.methods := split ▸ List.mem_append_right _ later
      refine ⟨kept, List.mem_append_right _ (List.mem_cons_of_mem _ later), unwritten kept listed, ?_⟩
      exact (of_decide_eq_true same).trans named.symm
    · have apart : own ∉ old := by
        rintro inside
        rcases place with ⟨rfl, -⟩ | ⟨replaced, name, rfl⟩
        · cases inside
        · exact named (List.mem_singleton.mp inside ▸ name)
      refine ⟨own, ?_, unwritten own member, rfl⟩
      rw [split, List.append_assoc] at member
      rcases List.mem_append.mp member with earlier | inside
      · exact List.mem_append_left _ earlier
      · have later := (List.mem_append.mp inside).resolve_left apart
        exact List.mem_append_right _ (List.mem_cons_of_mem _ later)

end Class

/-! ### Routed methods -/

theorem Contract.guards_declared {v : Contract} {made : List (Text × Text)}
    (routed : Contract.guards v.annotated = .ok made) :
    List.Forall₂ (fun own guard => guard.2 = own.name.label)
      (v.declaration.methods.filter Method.isAnnotated) made := by
  have each := mapM_eq_ok.mp routed
  rw [annotated_eq, List.forall₂_map_left_iff] at each
  refine each.imp fun m guard made => ?_
  obtain ⟨call, -, made⟩ := bind_ok made
  cases made
  rfl

theorem filter_eq_singleton {α β : Type} [DecidableEq β] {f : α → β} {xs : List α}
    (distinct : (xs.map f).Nodup) {x : α} (member : x ∈ xs) : xs.filter (f · = f x) = [x] := by
  obtain ⟨before, after, rfl⟩ := List.append_of_mem member
  rw [List.map_append, List.map_cons, List.nodup_middle, List.nodup_cons, ← List.map_append] at distinct
  have others (ys : List α) (inside : ys ⊆ before ++ after) : ys.filter (f · = f x) = [] := by
    refine List.filter_eq_nil_iff.mpr fun y member same => distinct.1 ?_
    exact of_decide_eq_true same ▸ List.mem_map_of_mem (inside member)
  rw [List.filter_append, List.filter_cons, others before (List.subset_append_left _ _),
    others after (List.subset_append_right _ _)]
  simp

namespace Transformer

variable {t : Transformer} {code : Codebase} {program : Option Program} {output : Output}
  {files : Table Text Text}

/-- Where contracts have names of their own, what is written into a class is the routine of its own
annotated methods. -/
theorem run_written (fresh : code.IsFresh) (unwritten : ∀ m ∈ code.methods, m.body = none)
    (h : (t.run code program).2.2 = .ok (output, files))
    (apart : (code.contracts.map (·.name.key)).Nodup) {site : Site} {d c : Class} {m : Method}
    (before : code.classAt? site = some d)
    (after : (t.run code program).2.1.classAt? site = some c) (member : m ∈ c.methods)
    (written : m.body ≠ none) : ∃ (v : Contract) (guards : List (Text × Text)),
      v.declaration = d ∧ c = (d.splice m).1 ∧ m.name = .str Dispatch.routineName ∧
      m.body = some (Dispatch.routineText t.layout.indentUnit guards) ∧
      Contract.guards v.annotated = .ok guards := by
  have old : m ∉ d.methods := fun own =>
    written (unwritten m (Codebase.mem_methods_of_classAt? before own))
  obtain ⟨unplaced, placed⟩ := run_classAt? h site
  -- A place that no group has is left as it was, with nothing written there.
  obtain ⟨group, grouped, here⟩ : ∃ group ∈ output.catalog.byClass,
      Injector.siteOf output.catalog.classes group = some site := by
    by_contra none
    push Not at none
    rw [unplaced none, before, Option.some.injEq] at after
    exact old (after ▸ member)
  obtain ⟨m', name, -, body, result⟩ := placed group grouped here
  rw [after, before, Option.map_some, Option.some.injEq] at result
  obtain rfl : m = m' := (Class.mem_methods_splice (result ▸ member)).resolve_right old
  rw [siteOf_eq h] at here
  obtain ⟨v, last, site⟩ := Option.map_eq_some_iff.mp here
  obtain ⟨listed, named⟩ := List.mem_filter.mp (List.mem_of_getLast? last)
  have declared := Codebase.classAt?_of_mem_contracts listed
  rw [site, before, Option.some.injEq] at declared
  obtain ⟨owner, -, rfl⟩ := List.mem_map.mp grouped
  have guards := run_guards fresh h owner.key
  rw [← of_decide_eq_true named, filter_eq_singleton apart listed, List.flatMap_singleton] at guards
  refine ⟨v, _, declared.symm, result, name, body, ?_⟩
  unfold Catalog.recordsOf
  rw [guards, ← of_decide_eq_true named]

/-- In fresh code whose contracts have names of their own, let something have been written into a
class. It is a routine that routes the annotated methods of the class. One of these is lost if and only
if it is the only method `execute`. -/
theorem routed_method_survives_iff {t : Transformer} {dump : List Dump.Source}
    {program : Option Program} {output : Output} {files : Table Text Text}
    (h : (t.run (.ofDump dump) program).2.2 = .ok (output, files))
    (apart : ((Codebase.ofDump dump).contracts.map (·.name.key)).Nodup) {site : Site} {d c : Class}
    {m : Method} {text : Text} (before : (Codebase.ofDump dump).classAt? site = some d)
    (after : (t.run (.ofDump dump) program).2.1.classAt? site = some c) (injected : m ∈ c.methods)
    (written : m.body = some text) :
    ∃ guards, text = Dispatch.routineText t.layout.indentUnit guards ∧
      List.Forall₂ (fun own guard => guard.2 = own.name.label ∧
        (c.Keeps own.name ↔ (own.name = .str Dispatch.routineName →
          2 ≤ d.methods.countP (·.name = .str Dispatch.routineName))))
        (d.methods.filter Method.isAnnotated) guards := by
  have unwritten : ∀ m ∈ (Codebase.ofDump dump).methods, m.body = none :=
    fun m member => Codebase.body_of_mem_ofDump member
  have synthesized : m.body ≠ none := by simp [written]
  obtain ⟨v, guards, rfl, rfl, name, body, routed⟩ := run_written (Codebase.isFresh_ofDump dump)
    unwritten h apart before after injected synthesized
  refine ⟨guards, Option.some.inj (written.symm.trans body), ?_⟩
  have own : ∀ own ∈ v.declaration.methods.filter Method.isAnnotated,
      (v.declaration.splice m).1.Keeps own.name ↔ (own.name = .str Dispatch.routineName →
        2 ≤ v.declaration.methods.countP (·.name = .str Dispatch.routineName)) := by
    intro own member
    rw [← name]
    exact Class.keeps_splice_iff
      (fun m own => unwritten m (Codebase.mem_methods_of_classAt? before own)) synthesized
      (List.mem_filter.mp member).1
  exact ((List.forall₂_and_left _ _).mpr ⟨own, Contract.guards_declared routed⟩).imp
    fun _ _ both => both.symm

/-- A contract with an annotated method `execute`, and one with two of them. -/
def switchboard : List Dump.Source := [
  { path := .str "switchboard.ts", isLibrary := false
    classes := [
      { name := .str "Router", base := .null, decorators := []
        members := [
          .method (.str "execute") [⟨.str "method", ["'run'"]⟩],
          .method (.str "mint") [⟨.str "method", []⟩]] },
      { name := .str "Relay", base := .null, decorators := []
        members := [
          .method (.str "execute") [⟨.str "method", ["'first'"]⟩],
          .method (.str "execute") [⟨.str "method", ["'second'"]⟩]] }] }]

def router : Contract where
  site := ⟨0, 0⟩
  path := .str "switchboard.ts"
  declaration :=
    { name := .str "Router", base := .null, decorators := []
      members := [
        .method { key := 0, name := .str "execute", decorators := [⟨.str "method", ["'run'"]⟩] },
        .method { key := 1, name := .str "mint", decorators := [⟨.str "method", []⟩] }] }

def relay : Contract where
  site := ⟨0, 1⟩
  path := .str "switchboard.ts"
  declaration :=
    { name := .str "Relay", base := .null, decorators := []
      members := [
        .method { key := 2, name := .str "execute", decorators := [⟨.str "method", ["'first'"]⟩] },
        .method { key := 3, name := .str "execute", decorators := [⟨.str "method", ["'second'"]⟩] }] }

theorem contracts_switchboard : (Codebase.ofDump switchboard).contracts = [router, relay] := by
  decide +kernel

theorem run_switchboard : ∃ output files,
    (({} : Transformer).run (.ofDump switchboard) none).2.2 = .ok (output, files) :=
  run_completes {} (show (Codebase.ofDump switchboard).isTextual = true by decide)
    (by decide +kernel)

/-- The first contract loses its `execute` and keeps its `mint`. The second one keeps an `execute`. -/
theorem routed_methods_of_switchboard : ∃ first second : Class,
    (({} : Transformer).run (.ofDump switchboard) none).2.1.classAt? ⟨0, 0⟩ = some first ∧
      (({} : Transformer).run (.ofDump switchboard) none).2.1.classAt? ⟨0, 1⟩ = some second ∧
      ¬first.Keeps (.str "execute") ∧ first.Keeps (.str "mint") ∧ second.Keeps (.str "execute") := by
  obtain ⟨output, files, ran⟩ := run_switchboard
  have fresh := Codebase.isFresh_ofDump switchboard
  have apart : ((Codebase.ofDump switchboard).contracts.map (·.name.key)).Nodup := by
    rw [contracts_switchboard]
    decide
  have one : (Codebase.ofDump switchboard).contracts = [] ++ router :: [relay] :=
    contracts_switchboard
  have two : (Codebase.ofDump switchboard).contracts = [router] ++ relay :: [] :=
    contracts_switchboard
  obtain ⟨m, _, -, body, -, result⟩ := run_classAt?_of_last fresh ran one (by decide) (by decide)
  obtain ⟨m', _, -, body', -, result'⟩ := run_classAt?_of_last fresh ran two (by decide) (by decide)
  have at0 : (Codebase.ofDump switchboard).classAt? router.site = some router.declaration := by
    decide +kernel
  have at1 : (Codebase.ofDump switchboard).classAt? relay.site = some relay.declaration := by
    decide +kernel
  obtain ⟨_, -, each⟩ := routed_method_survives_iff ran apart at0 result
    (Class.mem_methods_splice_self _ m) body
  obtain ⟨_, -, each'⟩ := routed_method_survives_iff ran apart at1 result'
    (Class.mem_methods_splice_self _ m') body'
  obtain ⟨_, -, -, lost⟩ := exists_of_forall₂ each.flip
    (show ⟨0, .str "execute", [⟨.str "method", ["'run'"]⟩], none⟩ ∈ _ by decide)
  obtain ⟨_, -, -, kept⟩ := exists_of_forall₂ each.flip
    (show ⟨1, .str "mint", [⟨.str "method", []⟩], none⟩ ∈ _ by decide)
  obtain ⟨_, -, -, kept'⟩ := exists_of_forall₂ each'.flip
    (show ⟨2, .str "execute", [⟨.str "method", ["'first'"]⟩], none⟩ ∈ _ by decide)
  exact ⟨_, _, result, result', fun keeps => absurd (lost.mp keeps rfl) (by decide),
    kept.mpr (by decide), kept'.mpr (by decide)⟩

/-- The guard of a method `execute` that its routine has replaced calls the routine. -/
theorem lone_execute_is_lost : ∃ output files c m selector more,
    (({} : Transformer).run (.ofDump switchboard) none).2.2 = .ok (output, files) ∧
      (({} : Transformer).run (.ofDump switchboard) none).2.1.classAt? router.site = some c ∧
      m ∈ c.methods ∧
      m.body = some (Dispatch.routineText "    " ((selector, "execute") :: more)) ∧
      ¬c.Keeps (.str "execute") := by
  obtain ⟨output, files, ran⟩ := run_switchboard
  have first : (Codebase.ofDump switchboard).contracts = [] ++ router :: [relay] :=
    contracts_switchboard
  obtain ⟨m, guards, name, body, made, result⟩ := run_classAt?_of_last
    (Codebase.isFresh_ofDump switchboard) ran first (by decide) (by decide)
  have written : m.body ≠ none := by simp [body]
  have listed : ⟨0, .str "execute", [⟨.str "method", ["'run'"]⟩], none⟩ ∈ router.declaration.methods :=
    by decide
  have lost := Class.keeps_splice_iff (m := m) (by decide) written listed
  rw [name] at lost
  cases Contract.guards_declared (v := router) made with
  | cons declared rest =>
    rename_i guard more
    obtain ⟨selector, called⟩ := guard
    cases declared
    exact ⟨output, files, _, m, selector, more, ran, result, Class.mem_methods_splice_self _ m, body,
      fun keeps => absurd (lost.mp keeps rfl) (by decide)⟩

end Transformer

end ContractAbi
